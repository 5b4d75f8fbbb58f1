import Aimv6.Mm.KmallocRoom

/-! # Pools without bytes

Where ten objects and a header come to less than a page below `2 ^ 32` the size of the
pool rounds up to 0. `pages_alloc` links the first free area to itself and hands it
out, and `pool_segm` clears that link: what is left of the free list is the header of
the pool. With an alignment to `2 ^ 31` the pool is even made, on address 0.
-/

namespace Aimv6.Mm

open Support

theorem poolBytes_eq_zero {osize : Nat} (h : 4294963200 < 10 * osize + 26)
    (hlt : 10 * osize + 26 < 4294967296) : poolBytes osize = 0 := by
  have hmul : osize * 10 % 4294967296 = osize * 10 := Nat.mod_eq_of_lt (by omega)
  have hsum : add32 (add32 (osize * 10 % 4294967296) SIZEOF_POOL) 10 = osize * 10 + 26 := by
    unfold SIZEOF_POOL
    rw [hmul, add32_of_lt (by omega : osize * 10 + 16 < 4294967296), add32_of_lt (by omega)]
  have hpage : osize * 10 + 26 &&& 0xFFF ≠ 0 := by
    rw [Ne, and_mask_eq_zero]
    omega
  have hdiv : (osize * 10 + 26) / 4096 = 1048575 := by omega
  unfold poolBytes
  simp only [hsum]
  rw [if_pos hpage, Nat.shiftRight_eq_div_pow, show (2 : Nat) ^ 12 = 4096 from rfl, hdiv]
  rfl

/-! ## The pages -/

/-- What is left of the free list is an area at `v` without a byte. -/
structure OnlyEmpty (s : State) (v : Nat) : Prop where
  head : s.fareaHead = some v
  next : s.areaNext v = none
  size : s.areaSize v = 0

section Pages

variable {s : State} {e : Extent} {l : List Extent} {v a : Nat}

theorem scan_pages_zero (s : State) (v : Nat) :
    scan s.areaNext (fun a => decide (¬ 0 > s.areaSize a)) walkFuel none (some v) =
      some (none, some v) := by
  obtain ⟨k, hk⟩ : ∃ k, walkFuel = k + 1 := ⟨4294967295, rfl⟩
  rw [hk, scan, if_pos (decide_eq_true (Nat.not_lt_zero _))]

theorem pagesAlloc_zero_none (h : Represents s []) : pagesAlloc s 0 = .error .spin := by
  obtain ⟨k, hk⟩ : ∃ k, walkFuel = k + 1 := ⟨4294967295, rfl⟩
  have hhead : s.fareaHead = none := h.toFreeList.head_eq
  unfold pagesAlloc
  rw [if_neg (by decide), hhead, hk, scan]
  rfl

/-- No bytes of the first area: its header links to itself and is handed out. -/
theorem pagesAlloc_zero (h : Represents s (e :: l)) :
    ∃ s', pagesAlloc s 0 = .ok (e.start, s') ∧ s'.fareaHead = some (node e) ∧
      Frame (Set.Ico (node e) (node e + 8)) s s' := by
  have hep := h.paged e (List.mem_cons_self ..)
  have hbounds := hep.node_bounds
  have hsize := h.sizes e (List.mem_cons_self ..)
  have hpos := h.separated.pos e (List.mem_cons_self ..)
  have hhead : s.fareaHead = some (node e) := h.toFreeList.head_eq
  have hstart := hep.V2P_node
  obtain ⟨v, hv⟩ : ∃ v, v = node e := ⟨_, rfl⟩
  rw [← hv] at hbounds hsize hhead hstart ⊢
  have hself : add32 v 0 = v := add32_of_lt (by omega)
  obtain ⟨t, ht⟩ : ∃ t, t = (pagesSplit s (some v) 0).2 := ⟨_, rfl⟩
  have hsplit : pagesSplit s (some v) 0 = (0, t) := by
    rw [ht]
    unfold pagesSplit
    dsimp only
    rw [if_neg (by simp), if_neg (by omega)]
  have hnext : t.areaNext v = some v := by
    rw [ht]
    unfold pagesSplit
    dsimp only
    rw [if_neg (by simp), if_neg (by omega), hself]
    dsimp only
    refine FreeList.areaNext_setAreaNext_same _ v fun b hb => ?_
    obtain rfl := Option.mem_some.1 hb
    omega
  have hkept : t.fareaHead = some v := by
    rw [← hhead, ht]
    unfold pagesSplit
    dsimp only
    rw [if_neg (by simp), if_neg (by omega)]
    rfl
  have hframe : Frame (Set.Ico v (v + 8)) s t := by
    rw [ht]
    exact Frame.pagesSplit (Set.Subset.refl _) (by rw [hself])
  refine ⟨{ t with fareaHead := some v }, ?_, rfl, hframe.trans (Frame.withHead _)⟩
  unfold pagesAlloc
  rw [if_neg (by decide), hhead, scan_pages_zero, Res.ofFuel_some, Res.ok_bind]
  dsimp only
  rw [if_neg (Nat.not_lt_zero _), if_pos (show 0 < s.areaSize v by omega), hsplit]
  dsimp only
  rw [if_neg (not_not.2 rfl), hstart]
  unfold State.unlinkArea
  dsimp only
  rw [if_pos hkept.symm, hnext]

theorem OnlyEmpty.pagesAlloc (h : OnlyEmpty s v) :
    pagesAlloc s 0 = .ok (V2P v, { s with fareaHead := none }) := by
  unfold Mm.pagesAlloc
  rw [if_neg (by decide), h.head, scan_pages_zero, Res.ofFuel_some, Res.ok_bind]
  dsimp only
  rw [if_neg (Nat.not_lt_zero _), if_neg (show ¬ 0 < s.areaSize v by rw [h.size]; exact Nat.lt_irrefl 0)]
  dsimp only
  rw [if_neg (not_not.2 rfl)]
  unfold State.unlinkArea
  dsimp only
  rw [if_pos h.head.symm, h.next]

/-- Given back at its kernel-virtual address, it leaves a node at the physical one. -/
theorem OnlyEmpty.pagesFree (h : OnlyEmpty s (a + 2147483648)) (hal : a % 4096 = 0) (hpos : 0 < a)
    (hhi : a < 520093696) : ∃ s', pagesFree s (a + 2147483648) (a + 2147483648) = .ok (0, s') ∧
      Chain s'.areaNext s'.fareaHead [a + 2147483648, a] ∧
      Frame ({b | b < 2147483648} ∪ Set.Ico (a + 2147483648) (a + 2147483648 + 8)) s s' := by
  obtain ⟨v, hv⟩ : ∃ v, v = a + 2147483648 := ⟨_, rfl⟩
  have hP2V : P2V v = a := by
    rw [hv]
    exact P2V_virtual (by omega)
  have hV2P : V2P v = a := by
    rw [hv, ← P2V_of_lt (by omega), V2P_P2V (by omega)]
  rw [← hv] at h ⊢
  have hscan : scan s.areaNext (fun b => decide (¬ V2P b < v)) walkFuel none (some v) =
      some (some v, none) := by
    obtain ⟨k, hk⟩ : ∃ k, walkFuel = k + 2 := ⟨4294967294, rfl⟩
    rw [hk, scan, if_neg (by simp only [hV2P, decide_eq_true_eq]; omega), h.next, scan]
  obtain ⟨t, ht⟩ : ∃ t, t = s.linkArea (some v) none a 0 := ⟨_, rfl⟩
  have hkept : ∀ b, v + 4 ≤ b → t.word b = s.word b := by
    intro b hb
    rw [ht]
    unfold State.linkArea State.setAreaNext State.setAreaSize
    dsimp only
    rw [State.word_setWord_ne _ (by omega), State.word_setWord_ne _ (by omega),
      State.word_setWord_ne _ (by omega)]
  have hmerge : t.mergeLeft (some v) a = (t, a) := by
    have hsize : t.areaSize v = 0 := (hkept (v + 4) (Nat.le_refl _)).trans h.size
    unfold State.mergeLeft
    dsimp only
    rw [hsize, hP2V, add32_of_lt (by omega), P2V_of_lt (by omega), if_neg (by omega)]
  refine ⟨t, ?_, ⟨?_, ?_, ?_⟩, ?_⟩
  · unfold Mm.pagesFree
    dsimp only
    rw [if_neg (by simp only [and_mask_eq_zero, ne_eq, not_or, not_not]; omega), h.head, hscan,
      Res.ofFuel_some, Res.ok_bind]
    dsimp only
    rw [hP2V, sub32_of_le (by omega) (Nat.le_refl _), Nat.sub_self, ← ht, hmerge]
    rfl
  · rw [ht]
    exact h.head
  · rw [ht]
    refine FreeList.areaNext_setAreaNext_same _ v fun b hb => ?_
    obtain rfl := Option.mem_some.1 hb
    omega
  · rw [ht]
    unfold State.linkArea State.areaNext State.setAreaNext
    dsimp only
    rw [State.word_setWord_ne _ (by omega), ptrVal_none, State.word_setWord_same _ (by decide)]
    rfl
  · rw [ht]
    refine Frame.linkArea (fun b hb c hc => Or.inr ?_) fun b hb => Or.inl ?_
    · obtain rfl := Option.mem_some.1 hb
      exact hc
    · have := hb.2
      show b < 2147483648
      omega

end Pages

/-! ## The pool -/

section Pool

variable {s : State} {v osize align : Nat}

theorem Frame.clearPool {psize : Nat} :
    Frame (Set.Ico v (v + 16)) s (s.clearPool v psize) := by
  unfold State.clearPool State.setNextPool State.setObjHead State.setPoolSize State.setCntInuse
  refine (((Frame.setWord ?_).trans (Frame.setWord ?_)).trans (Frame.setWord ?_)).trans
    (Frame.setWord ?_)
  · exact Set.Ico_subset_Ico (by omega) (by omega)
  · exact Set.Ico_subset_Ico (by omega) (by omega)
  · exact Set.Ico_subset_Ico (by omega) (by omega)
  · exact Set.Ico_subset_Ico (by omega) (by omega)

theorem word_clearPool {psize c : Nat} (hc : c = v ∨ c = v + 8 ∨ c = v + 12) :
    (s.clearPool v psize).word c = 0 := by
  unfold State.clearPool State.setNextPool State.setObjHead State.setPoolSize State.setCntInuse
  rcases hc with rfl | rfl | rfl
  · rw [State.word_setWord_ne _ (by omega), State.word_setWord_ne _ (by omega),
      State.word_setWord_ne _ (by omega), State.word_setWord_same _ (by decide)]
  · rw [State.word_setWord_ne _ (by omega), ptrVal_none, State.word_setWord_same _ (by decide)]
  · rw [ptrVal_none, State.word_setWord_same _ (by decide)]

theorem word_clearPool_size {psize : Nat} (h : psize < 4294967296) :
    (s.clearPool v psize).word (v + 4) = psize := by
  unfold State.clearPool State.setNextPool State.setObjHead State.setPoolSize State.setCntInuse
  rw [State.word_setWord_ne _ (by omega), State.word_setWord_ne _ (by omega),
    State.word_setWord_same _ h]

theorem onlyEmpty_clearPool (h : s.fareaHead = some v) : OnlyEmpty (s.clearPool v 0) v :=
  ⟨h, congrArg ptr (word_clearPool (Or.inl rfl)), word_clearPool_size (by decide)⟩

/-- No pool of no bytes can be made, and the free list is spoilt. -/
theorem poolAlloc_zero {l : List Extent} (h : Represents s l) (hzero : poolBytes osize = 0)
    (hal : AlignOk align) : poolAlloc s osize align = .error .spin ∨
      ∃ s', poolAlloc s osize align = .ok (none, s') ∧ Spoilt s l s' := by
  obtain ⟨k, hk⟩ : ∃ k, walkFuel = k + 1 := ⟨4294967295, rfl⟩
  cases l with
  | nil =>
      have hspin := poolPages_of_error (pagesAlloc_zero_none h) k
      rw [← hk, ← hzero] at hspin
      exact Or.inl (poolAlloc_of_error hspin)
  | cons e l =>
      obtain ⟨s₁, hcall, hhead, hframe₁⟩ := pagesAlloc_zero h
      have hep := h.paged e (List.mem_cons_self ..)
      have hpal := hep.start_aligned
      have hsal := hep.size_aligned
      have hlo := hep.lo
      have hhi := hep.hi
      have hpos := h.separated.pos e (List.mem_cons_self ..)
      unfold Extent.fin at hhi
      rw [hep.node_eq] at hhead hframe₁
      have hbytes : Set.Ico (e.start + 2147483648) (e.start + 2147483648 + 16) ⊆
          virt (covered (e :: l)) := by
        intro b hb
        have hb₁ := hb.1
        have hb₂ := hb.2
        refine ⟨by unfold KERNEL_BASE; omega, e, List.mem_cons_self .., ?_⟩
        rw [Extent.mem_bytes, KERNEL_BASE, Extent.fin]
        omega
      obtain ⟨s₃, hfreed, hchain, hframe₃⟩ :=
        (onlyEmpty_clearPool hhead).pagesFree hpal (by omega) (by omega)
      have hpages := poolPages_of_alloc hcall (by rw [P2V_of_lt (by omega)]; omega) k
      rw [← hk, P2V_of_lt (by omega), ← hzero] at hpages
      have hpa := @poolAlloc_of_pages s s₁ osize align _ _ hpages (by omega)
      rw [hzero, poolSegm_eq (by omega) (by omega) hal,
        if_pos (Nat.le_of_lt (by have := (segmStart_spec (v := e.start + 2147483648) (by omega) hal).1; omega)),
        Res.ok_bind] at hpa
      dsimp only at hpa
      rw [add32_of_lt (by omega), Nat.add_zero, hfreed] at hpa
      have hframe : Frame ({b | b < 2147483648} ∪ virt (covered (e :: l))) s s₃ := by
        refine ((hframe₁.mono ?_).trans (Frame.clearPool.mono ?_)).trans (hframe₃.mono ?_)
        · exact fun b hb => Or.inr (hbytes ⟨hb.1, by have := hb.2; omega⟩)
        · exact fun b hb => Or.inr (hbytes hb)
        · exact Set.union_subset_union_right _ fun b hb => hbytes ⟨hb.1, by have := hb.2; omega⟩
      refine Or.inr ⟨s₃, hpa, hframe.slbHead, hframe.mem.mono fun b hb hc => ?_,
        fun t hhead' hmem m => ?_⟩
      · rcases hc with hc | hc
        · exact absurd hb.1 (Nat.not_le.2 hc)
        · exact hb.2 hc
      · have hlist : Chain t.areaNext t.fareaHead ([e.start + 2147483648] ++ [e.start]) := by
          rw [hhead']
          refine Seg.congr hchain fun b hb => congrArg ptr (load32_congr hmem fun c h₁ h₂ => ?_)
          rcases List.mem_cons.1 hb with rfl | hb
          · exact Or.inr (hbytes ⟨h₁, by omega⟩)
          · obtain rfl := List.mem_singleton.1 hb
            exact Or.inl (by omega)
        exact not_represents hlist (by omega) m

/-! ## An alignment to `2 ^ 31` -/

/-- A pool without bytes whose only object is address 0, which is the same as none. -/
structure NullPool (s : State) (v : Nat) (s' : State) : Prop where
  objs : s'.objHead v = none
  last : s'.nextPool v = none
  next : s'.areaNext v = none
  size : s'.areaSize v = 0
  head : s'.fareaHead = s.fareaHead
  frame : Frame (Set.Iio 4 ∪ Set.Ico v (v + 16)) s s'

theorem nullPool_push (hlo : 4 ≤ v) :
    NullPool s v (((s.clearPool v 0).setObjHead v none).pushObj v 0) := by
  obtain ⟨t, ht⟩ : ∃ t, t = ((s.clearPool v 0).setObjHead v none).pushObj v 0 := ⟨_, rfl⟩
  have hkept : ∀ c, v ≤ c → c + 4 ≤ v + 8 ∨ v + 12 ≤ c → t.word c = (s.clearPool v 0).word c := by
    intro c h₁ h₂
    rw [ht]
    unfold State.pushObj State.setObjHead State.setNextObj
    dsimp only
    rw [State.word_setWord_ne _ (by omega), State.word_setWord_ne _ (by omega),
      State.word_setWord_ne _ (by omega)]
  rw [← ht]
  refine ⟨?_, ?_, ?_, ?_, ?_, ?_⟩
  · rw [ht]
    unfold State.pushObj State.setObjHead State.objHead
    dsimp only
    rw [ptrVal_some, State.word_setWord_same _ (by decide)]
    rfl
  · exact congrArg ptr ((hkept _ (by omega) (by omega)).trans (word_clearPool (Or.inr (Or.inr rfl))))
  · exact congrArg ptr ((hkept _ (by omega) (by omega)).trans (word_clearPool (Or.inl rfl)))
  · exact (hkept _ (by omega) (by omega)).trans (word_clearPool_size (by decide))
  · rw [ht]
    rfl
  · rw [ht]
    unfold State.pushObj State.setObjHead State.setNextObj
    refine (((Frame.clearPool.mono ?_).trans (Frame.setWord ?_)).trans (Frame.setWord ?_)).trans
      (Frame.setWord ?_)
    · exact Set.subset_union_right
    · exact fun b hb => Or.inr ⟨by have := hb.1; omega, by have := hb.2; omega⟩
    · exact fun b hb => Or.inl (by have := hb.2; show b < 4; omega)
    · exact fun b hb => Or.inr ⟨by have := hb.1; omega, by have := hb.2; omega⟩

/-- The candidates are 0 and `2 ^ 31`: the loop never ends if the second lies in front of the pool,
and otherwise puts only the first on the list. -/
theorem poolSegm_zero_top (hlo : 2155872256 ≤ v) (hhi : v ≤ 2667577344) (hos : osize ≤ 429496730) :
    poolSegm s v 0 osize 2147483648 = .error .diverge ∨
      ∃ s', poolSegm s v 0 osize 2147483648 = .ok (some v, s') ∧ NullPool s v s' := by
  have hend : add32 v 0 = v := add32_of_lt (by omega)
  obtain ⟨t, ht⟩ : ∃ t, t = (s.clearPool v 0).setObjHead v none := ⟨_, rfl⟩
  have heq : poolSegm s v 0 osize 2147483648 =
      segmLoop v v osize 2147483648 walkFuel t 0 >>= fun s => .ok (some v, s) := by
    unfold poolSegm
    dsimp only
    rw [segm_first_top (by omega) (by omega), hend, if_neg (by omega), ht]
    rfl
  by_cases hfar : 2147483648 + osize ≤ v
  · rw [heq, segmLoop_wraps (by omega) hfar (by omega) (Or.inl rfl)]
    exact Or.inl rfl
  · obtain ⟨k, hk⟩ : ∃ k, walkFuel = k + 2 := ⟨4294967294, rfl⟩
    have hstep : (if osize > 2147483648 then osize else 2147483648) = 2147483648 :=
      if_neg (by omega)
    have hloop : segmLoop v v osize 2147483648 walkFuel t 0 = .ok (t.pushObj v 0) := by
      rw [hk, segmLoop, hstep, add32_of_lt (by omega : 0 + osize < 4294967296), if_pos (by omega),
        if_pos (Or.inr (Nat.zero_and _)), segmLoop, add32_of_lt (by omega : 0 + 2147483648 < 4294967296),
        Nat.zero_add, add32_of_lt (by omega : 2147483648 + osize < 4294967296), if_neg hfar]
    rw [heq, hloop, ht]
    exact Or.inr ⟨_, rfl, nullPool_push (by omega)⟩

/-- The request for the new descriptor finds its pool without an object, makes the same pool once
more, and takes an object from it. -/
theorem allocRec_null_pool {d depth : Nat} (hslb : s.slbHead = some d)
    (hal : s.objAlign d = 2147483648) (hos : s.objSize d = osize) (hpool : s.poolHead d = some v)
    (hobjs : s.objHead v = none) (hlast : s.nextPool v = none) (hleft : OnlyEmpty s v)
    (hlo : 2155872256 ≤ v) (hhi : v ≤ 2667577344) (hapart : d + 16 ≤ v ∨ v + 16 ≤ d)
    (hsize : 4294963200 < 10 * osize + 26) (hlt : 10 * osize + 26 < 4294967296) :
    ∃ e, slbAllocAlignRec (depth + 1) s osize 2147483648 = .error e := by
  obtain ⟨k, hk⟩ : ∃ k, walkFuel = k + 2 := ⟨4294967294, rfl⟩
  have hks : keySize osize = osize := (maxInt_four (by omega)).trans (by omega)
  have hka : keyAlign osize 2147483648 = 2147483648 := keyAlign_ne _ (by decide)
  have hslab : scan s.nextSlb (fun d => decide (s.objAlign d = keyAlign osize 2147483648 ∧
      s.objSize d = keySize osize)) walkFuel none s.slbHead = some (none, some d) := by
    rw [hka, hks, hslb, hk, scan, if_pos (decide_eq_true ⟨hal, hos⟩)]
  have hscan : scan s.nextPool (fun v => (s.objHead v).isSome) walkFuel none (s.poolHead d) =
      some (some v, none) := by
    rw [hpool, hk, scan, hobjs, if_neg (by simp), hlast, scan]
  rw [allocRec_grow hslab hscan, hks, hka]
  have hP2V : P2V (V2P v) = v := P2V_V2P (by omega)
  have hpages := poolPages_of_alloc hleft.pagesAlloc (by rw [hP2V]; omega) (k + 1)
  rw [← hk, hP2V, ← poolBytes_eq_zero hsize hlt] at hpages
  rw [poolAlloc_of_pages hpages (by omega), poolBytes_eq_zero hsize hlt]
  rcases @poolSegm_zero_top { s with fareaHead := none } v osize hlo hhi (by omega) with herr | hmade
  · rw [herr]
    exact ⟨_, rfl⟩
  · obtain ⟨t, hrun, hnull⟩ := hmade
    rw [hrun]
    refine ⟨.nullDeref, takeObj_none ?_⟩
    refine (congrArg ptr ?_).trans hnull.objs
    exact (State.word_setWord_ne _ (by omega)).trans (State.word_setWord_ne _ (by omega))

/-- The same for a pool that was made for the descriptor `d` and put on the list with it. -/
theorem allocRec_enlisted {u t : State} {d depth : Nat} (hal : u.word d = 2147483648)
    (hos : u.word (d + 4) = osize) (hframe : Frame (Set.Ico v (v + 8)) u s) (hnull : NullPool s v t)
    (hhead : s.fareaHead = some v) (hd : 4 ≤ d) (hlo : 2155872256 ≤ v) (hhi : v ≤ 2667577344)
    (hapart : d + 16 ≤ v ∨ v + 16 ≤ d) (hsize : 4294963200 < 10 * osize + 26)
    (hlt : 10 * osize + 26 < 4294967296) :
    ∃ e, slbAllocAlignRec (depth + 1) { (t.setPoolHead d (some v)).setNextSlb d
      (t.setPoolHead d (some v)).slbHead with slbHead := some d } osize 2147483648 = .error e := by
  obtain ⟨t', ht'⟩ : ∃ t' : State, t' = { (t.setPoolHead d (some v)).setNextSlb d
    (t.setPoolHead d (some v)).slbHead with slbHead := some d } := ⟨_, rfl⟩
  have hkept : ∀ c, c + 4 ≤ d + 8 ∨ d + 16 ≤ c → t'.word c = t.word c := by
    intro c hc
    rw [ht']
    exact SlabInv.word_enlist hc
  have hfilled : ∀ c, d ≤ c → c + 4 ≤ d + 8 → t'.word c = u.word c := by
    intro c h₁ h₂
    refine (hkept c (by omega)).trans (load32_congr ((hframe.mono ?_).trans hnull.frame).mem
      fun b h₃ h₄ hb => ?_)
    · exact fun b hb => Or.inr ⟨hb.1, by have := hb.2; omega⟩
    · rcases hb with hb | hb
      · have : b < 4 := hb
        omega
      · have h₅ := hb.1
        have h₆ := hb.2
        omega
  have hpool : t'.poolHead d = some v := by
    rw [ht']
    exact SlabInv.poolHead_enlist (by omega) (by omega)
  rw [← ht']
  refine allocRec_null_pool (by rw [ht']) ((hfilled d (by omega) (by omega)).trans hal)
    ((hfilled (d + 4) (by omega) (by omega)).trans hos) hpool
    ((congrArg ptr (hkept (v + 8) (by omega))).trans hnull.objs)
    ((congrArg ptr (hkept (v + 12) (by omega))).trans hnull.last)
    ⟨?_, (congrArg ptr (hkept v (by omega))).trans hnull.next,
      (hkept (v + 4) (by omega)).trans hnull.size⟩ hlo hhi hapart hsize hlt
  rw [ht']
  exact hnull.head.trans hhead

end Pool

namespace SlabInv

variable {s : State} {V : View} {l : List Extent} {size k depth : Nat}

theorem no_key_wrapped (h : SlabInv s V l) (hsize : 4294963200 < 10 * size + 26)
    (hlt : 10 * size + 26 < 4294967296) (align : Nat) :
    ∀ d ∈ V.slabs, V.align d = align → V.osize d ≠ keySize size := by
  intro d hd _ hos
  have hsmall := (h.layout.key_ok d hd).small
  rw [hos, show keySize size = max size 4 from maxInt_four (by omega)] at hsmall
  omega

theorem alloc_null_pool (h : SlabInv s V l) {d v : Nat} {s₁ : State} {V₁ : View} {l₁ : List Extent}
    (hsize : 4294963200 < 10 * size + 26) (hlt : 10 * size + 26 < 4294967296)
    (hdesc : Descriptor V l (slbAllocAlignRec (depth + 1) s SIZEOF_SLB 0) d s₁ V₁ l₁ v) :
    ∃ e, slbAllocAlignRec (depth + 2) s size 2147483648 = .error e := by
  obtain ⟨k, hk⟩ : ∃ k, walkFuel = k + 1 := ⟨4294967295, rfl⟩
  have hks : keySize size = size := (maxInt_four (by omega)).trans (by omega)
  have hka : keyAlign size 2147483648 = 2147483648 := keyAlign_ne _ (by decide)
  obtain ⟨last, hslab⟩ := h.scan_slabs_none (keyAlign size 2147483648) (keySize size)
    (h.no_key_wrapped hsize hlt _)
  have hmiss : slbAllocAlignRec (depth + 2) s size 2147483648 = _ := allocRec_miss hslab
  rw [hdesc.returns, Res.ok_bind, hks, hka] at hmiss
  dsimp only at hmiss
  have hrep := hdesc.represents 2147483648 size
  have hal : ((s₁.setObjAlign d 2147483648).setObjSize d size).word d = 2147483648 :=
    (State.word_setWord_ne _ (by omega)).trans (State.word_setWord_same _ (by decide))
  have hos : ((s₁.setObjAlign d 2147483648).setObjSize d size).word (d + 4) = size :=
    State.word_setWord_same _ (by omega)
  obtain ⟨u, hu⟩ : ∃ u, u = (s₁.setObjAlign d 2147483648).setObjSize d size := ⟨_, rfl⟩
  rw [← hu] at hmiss hrep hal hos
  have hzero := poolBytes_eq_zero hsize hlt
  cases l₁ with
  | nil =>
      have hspin := poolPages_of_error (pagesAlloc_zero_none hrep) k
      rw [← hk, ← hzero] at hspin
      rw [poolAlloc_of_error hspin] at hmiss
      exact ⟨_, hmiss⟩
  | cons e l₁ =>
      obtain ⟨s₂, hcall, hhead, hframe⟩ := pagesAlloc_zero hrep
      have hep := hrep.paged e (List.mem_cons_self ..)
      have hsal := hep.size_aligned
      have hbounds := hep.node_bounds
      have hpos := hrep.separated.pos e (List.mem_cons_self ..)
      have hstart := hep.node_eq
      obtain ⟨w, hw⟩ : ∃ w, w = node e := ⟨_, rfl⟩
      rw [← hw] at hhead hframe hbounds hstart
      have hP2V : P2V e.start = w := by
        rw [hstart]
        exact P2V_of_lt (by omega)
      have hpages := poolPages_of_alloc hcall (by rw [hP2V]; omega) k
      rw [← hk, hP2V, ← hzero] at hpages
      rw [poolAlloc_of_pages hpages (by omega), hzero] at hmiss
      have hapart : d + 16 ≤ w ∨ w + 16 ≤ d := by
        by_contra hmeet
        refine hdesc.apart (max d w) (by omega) (by omega) ⟨by unfold KERNEL_BASE; omega, e,
          List.mem_cons_self .., ?_⟩
        rw [Extent.mem_bytes, KERNEL_BASE, Extent.fin]
        omega
      have hdbounds := hdesc.bounds
      rcases @poolSegm_zero_top s₂ w size (by omega) (by omega) (by omega) with herr | hmade
      · rw [herr] at hmiss
        exact ⟨_, hmiss⟩
      · obtain ⟨t, hrun, hnull⟩ := hmade
        rw [hrun] at hmiss
        have hend : slbAllocAlignRec (depth + 2) s size 2147483648 =
            slbAllocAlignRec (depth + 1) { (t.setPoolHead d (some w)).setNextSlb d
              (t.setPoolHead d (some w)).slbHead with slbHead := some d } size 2147483648 := by
          rw [hmiss]
          rfl
        rw [hend]
        exact allocRec_enlisted hal hos hframe hnull hhead (by omega) (by omega) (by omega) hapart
          hsize hlt

theorem alloc_wrapped (h : SlabInv s V l) (hsize : 4294963200 < 10 * size + 26)
    (hlt : 10 * size + 26 < 4294967296) (hk : k ≤ 31) : Stuck (slbAllocAlign s size (2 ^ k)) := by
  have hno := h.no_key_wrapped hsize hlt (keyAlign size (2 ^ k))
  have hks : keySize size = size := (maxInt_four (by omega)).trans (by omega)
  have hka : keyAlign size (2 ^ k) = 2 ^ k := keyAlign_ne _ (Nat.two_pow_pos k).ne'
  obtain ⟨depth, hdepth⟩ : ∃ n, walkFuel = n + 2 := ⟨4294967294, rfl⟩
  obtain ⟨last, hslab⟩ := h.scan_slabs_none _ _ hno
  have hmiss : slbAllocAlignRec (depth + 2) s size (2 ^ k) = _ := allocRec_miss hslab
  unfold slbAllocAlign
  rw [hdepth]
  rcases h.alloc_descriptor depth with hdesc | hstop
  · obtain ⟨d, s₁, V₁, l₁, v, hdesc⟩ := hdesc
    by_cases htop : k = 31
    · subst htop
      exact Or.inl (h.alloc_null_pool hsize hlt hdesc)
    · have hrep := hdesc.represents (keyAlign size (2 ^ k)) (keySize size)
      have hzero : poolBytes (keySize size) = 0 := by
        rw [hks]
        exact poolBytes_eq_zero hsize hlt
      have hal : AlignOk (keyAlign size (2 ^ k)) := by
        rw [hka]
        exact Or.inr (Or.inr ⟨k, by omega, rfl⟩)
      rcases poolAlloc_zero hrep hzero hal with hspin | hlost
      · rw [hdesc.returns, Res.ok_bind] at hmiss
        dsimp only at hmiss
        rw [hspin] at hmiss
        exact Or.inl ⟨_, hmiss⟩
      · obtain ⟨t, hpool, hspoilt⟩ := hlost
        exact h.alloc_spoilt hno hdesc hpool hspoilt
  · rw [hmiss, hstop.2]
    exact Or.inl ⟨_, rfl⟩

end SlabInv

end Aimv6.Mm
