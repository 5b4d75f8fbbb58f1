import Aimv6.Mm.SlabCarve

/-! # A new pool

`pool_alloc` takes whole pages and lets `pool_segm` carve them. The pool that
results has its header filled in and every slot on its list; where the first
aligned candidate already lies outside, there is no pool.
-/

namespace Aimv6.Mm

open Support

/-- The alignment a pool is carved with: a power of two that leaves room below `2 ^ 32`, the value
3 that `slb_alloc_align` derives for objects of three bytes, or 0 for the pool of `slb_init`. -/
def AlignOk (align : Nat) : Prop := align = 0 ∨ align = 3 ∨ ∃ k ≤ 30, align = 2 ^ k

theorem AlignOk.le {align : Nat} (h : AlignOk align) : align ≤ 1073741824 := by
  rcases h with rfl | rfl | ⟨k, hk, rfl⟩
  · decide
  · decide
  · exact Nat.pow_le_pow_right (by decide) hk

/-- The first candidate for a slot of the pool at `v`. -/
def segmStart (v align : Nat) : Nat :=
  if align ≠ 0 ∧ (v + 16) &&& (align - 1) ≠ 0 then v + 16 + align - ((align - 1) &&& (v + 16))
  else v + 16

theorem and_two_eq_zero {x : Nat} (h : x % 4 = 0) : x &&& 2 = 0 := by
  have h3 : x &&& 3 = 0 := by
    rw [show (3 : Nat) = 2 ^ 2 - 1 from rfl, Nat.and_two_pow_sub_one_eq_mod]
    exact h
  rw [show (2 : Nat) = 3 &&& 2 from rfl, ← Nat.and_assoc, h3, Nat.zero_and]

theorem segmStart_spec {v align : Nat} (hv : v % 4096 = 0) (h : AlignOk align) :
    v + 16 ≤ segmStart v align ∧ segmStart v align ≤ v + 16 + (align - 1) ∧
      (align = 0 ∨ segmStart v align &&& (align - 1) = 0) := by
  unfold segmStart
  rcases h with rfl | rfl | ⟨k, hk, rfl⟩
  · simp
  · have hand : (v + 16) &&& (3 - 1) = 0 := and_two_eq_zero (by omega)
    rw [if_neg (by simp [hand])]
    exact ⟨Nat.le_refl _, by omega, Or.inr hand⟩
  · have hpos : 0 < 2 ^ k := Nat.two_pow_pos k
    have hlt := Nat.mod_lt (v + 16) hpos
    rw [Nat.and_comm (2 ^ k - 1) (v + 16), Nat.and_two_pow_sub_one_eq_mod]
    by_cases hz : (v + 16) % 2 ^ k = 0
    · rw [if_neg (by simp [hz])]
      refine ⟨Nat.le_refl _, by omega, Or.inr ?_⟩
      rw [Nat.and_two_pow_sub_one_eq_mod]
      exact hz
    · rw [if_pos ⟨by omega, hz⟩]
      refine ⟨by omega, by omega, Or.inr ?_⟩
      rw [Nat.and_two_pow_sub_one_eq_mod]
      have hdm := Nat.div_add_mod (v + 16) (2 ^ k)
      have heq : v + 16 + 2 ^ k - (v + 16) % 2 ^ k = 2 ^ k * ((v + 16) / 2 ^ k + 1) := by
        rw [Nat.mul_add, Nat.mul_one]
        omega
      rw [heq, Nat.mul_mod_right]

/-- The header of a pool just made, with all its slots free. -/
structure NewPool (s : State) (v psize : Nat) (slots : List Nat) : Prop where
  cnt : s.cntInuse v = 0
  size : s.poolSize v = psize
  objs : Chain s.nextObj (s.objHead v) slots

/-- The room a pool must have for its first slot, wherever alignment moves it. -/
def Roomy (osize align : Nat) : Prop := 16 + (align - 1) + osize ≤ poolBytes osize

/-- The header that `pool_segm` fills in first. -/
def State.clearPool (s : State) (v psize : Nat) : State :=
  (((s.setCntInuse v 0).setPoolSize v psize).setObjHead v none).setNextPool v none

theorem poolSegm_eq {s : State} {v psize osize align : Nat} (hv : v % 4096 = 0)
    (hhi : v + psize ≤ 2667577344) (hal : AlignOk align) : poolSegm s v psize osize align =
      if segmStart v align ≥ v + psize then .ok (none, s.clearPool v psize)
      else (segmLoop v (v + psize) osize align walkFuel ((s.clearPool v psize).setObjHead v none)
        (segmStart v align)) >>= fun s => .ok (some v, s) := by
  have hale := hal.le
  have hadd : add32 v 16 = v + 16 := add32_of_lt (by omega)
  have hlim : add32 v psize = v + psize := add32_of_lt (by omega)
  have hstart : (if align ≠ 0 ∧ add32 v 16 &&& sub32 align 1 ≠ 0
      then sub32 (add32 (add32 v 16) align) (sub32 align 1 &&& add32 v 16) else add32 v 16) =
      segmStart v align := by
    rw [hadd]
    unfold segmStart
    by_cases hz : align = 0
    · simp [hz]
    · have hsub : sub32 align 1 = align - 1 := sub32_of_le (by omega) (by omega)
      have hand : (align - 1) &&& (v + 16) ≤ align - 1 := Nat.and_le_left
      rw [hsub, add32_of_lt (by omega), sub32_of_le (by omega) (by omega)]
  unfold poolSegm State.clearPool
  rw [← hstart, ← hlim]

/-- The fields that `pool_segm` clears and sets before it carves. -/
theorem clearPool_fields {s : State} {v psize : Nat} (hps : psize < 4294967296) :
    ((s.clearPool v psize).setObjHead v none).word v = 0 ∧
      ((s.clearPool v psize).setObjHead v none).word (v + 4) = psize ∧
      ((s.clearPool v psize).setObjHead v none).word (v + 12) = 0 ∧
      ((s.clearPool v psize).setObjHead v none).objHead v = none := by
  unfold State.clearPool
  refine ⟨?_, ?_, ?_, ?_⟩
  · unfold State.setObjHead State.setNextPool State.setPoolSize State.setCntInuse
    rw [State.word_setWord_ne _ (by omega), State.word_setWord_ne _ (by omega),
      State.word_setWord_ne _ (by omega), State.word_setWord_ne _ (by omega),
      State.word_setWord_same _ (by omega)]
  · unfold State.setObjHead State.setNextPool State.setPoolSize
    rw [State.word_setWord_ne _ (by omega), State.word_setWord_ne _ (by omega),
      State.word_setWord_ne _ (by omega), State.word_setWord_same _ hps]
  · unfold State.setObjHead State.setNextPool
    rw [State.word_setWord_ne _ (by omega), ptrVal_none, State.word_setWord_same _ (by omega)]
  · unfold State.setObjHead State.objHead
    rw [State.word_setWord_same _ (by decide)]
    rfl

theorem clearPool_mem {s : State} {v psize : Nat} (hps : 16 ≤ psize) :
    AgreeOn {b | ¬ (v ≤ b ∧ b < v + psize)} s.mem (s.clearPool v psize).mem := by
  intro b hb
  have hb' : ¬ (v ≤ b ∧ b < v + psize) := hb
  exact (((store32_apply_of_outside (by omega)).trans
    (store32_apply_of_outside (by omega))).trans
    (store32_apply_of_outside (by omega))).trans
    (store32_apply_of_outside (by omega))

theorem poolSegm_spec {s : State} {v psize osize align : Nat} (hv : v % 4096 = 0)
    (hlo : 2147483648 ≤ v) (hhi : v + psize ≤ 2667577344) (hps : 4096 ≤ psize)
    (hos : 4 ≤ osize) (hosz : osize ≤ 536870912) (hal : AlignOk align) :
    (v + psize ≤ segmStart v align ∧ ∃ s', poolSegm s v psize osize align = .ok (none, s') ∧
      s'.fareaHead = s.fareaHead ∧ s'.slbHead = s.slbHead ∧
      AgreeOn {b | ¬ (v ≤ b ∧ b < v + psize)} s.mem s'.mem) ∨
    segmStart v align < v + psize ∧ ∃ s' slots, poolSegm s v psize osize align = .ok (some v, s') ∧ NewPool s' v psize slots ∧
      s'.nextPool v = none ∧
      Carved (segmStart v align) (v + psize) osize align slots ∧
      (segmStart v align + osize ≤ v + psize → slots ≠ []) ∧
      s'.fareaHead = s.fareaHead ∧ s'.slbHead = s.slbHead ∧
      AgreeOn {b | ¬ (v ≤ b ∧ b < v + psize)} s.mem s'.mem := by
  have hale := hal.le
  obtain ⟨hge, hle, hfirst⟩ := segmStart_spec hv hal
  have hmem := @clearPool_mem s v psize (by omega)
  rw [poolSegm_eq hv hhi hal]
  by_cases hout : segmStart v align ≥ v + psize
  · exact Or.inl ⟨hout, s.clearPool v psize, if_pos hout, rfl, rfl, hmem⟩
  · obtain ⟨hcnt, hsize, hnext, hobj⟩ := @clearPool_fields s v psize (by omega)
    have hstep : (if osize > align then osize else align) ≤ 1073741824 := by
      split <;> omega
    obtain ⟨s', slots, hrun, hch, hcv, hne, hfa, hsl, hag⟩ :=
      @segmLoop_spec v (v + psize) osize align (segmStart v align) hos hge (by omega) walkFuel
        ((s.clearPool v psize).setObjHead v none) (segmStart v align) []
        (by unfold walkFuel; omega) (by omega) (Nat.le_refl _) ⟨0, by simp⟩ hobj
        (Carved.nil _ _ _ _) (by simp)
    have hkeep : ∀ a, v ≤ a → a + 4 ≤ v + 16 → (a + 4 ≤ v + 8 ∨ v + 12 ≤ a) →
        s'.word a = ((s.clearPool v psize).setObjHead v none).word a :=
      fun a _ _ _ => load32_congr hag fun b h₁ h₂ => ⟨by omega, by omega⟩
    refine Or.inr ⟨by omega, s', slots, ?_, ⟨?_, ?_, hch⟩, ?_, hcv,
      fun hfit => hne (Or.inr ⟨hfit, hfirst⟩), hfa, hsl, ?_⟩
    · rw [if_neg hout, hrun]
      rfl
    · exact (hkeep v (by omega) (by omega) (by omega)).trans hcnt
    · exact (hkeep (v + 4) (by omega) (by omega) (by omega)).trans hsize
    · unfold State.nextPool
      rw [hkeep (v + 12) (by omega) (by omega) (by omega), hnext]
      rfl
    · refine AgreeOn.trans (fun b hb => ?_) (hag.mono fun b hb => ?_)
      · have hb' : ¬ (v ≤ b ∧ b < v + psize) := hb
        exact (store32_apply_of_outside (by omega)).trans (hmem b hb)
      · have hb' : ¬ (v ≤ b ∧ b < v + psize) := hb
        exact ⟨by omega, by omega⟩

theorem poolBytes_spec {osize : Nat} (h : 10 * osize + 26 ≤ 4294963200) :
    poolBytes osize % 4096 = 0 ∧ 10 * osize + 26 ≤ poolBytes osize ∧
      poolBytes osize < 10 * osize + 26 + 4096 := by
  have hmul : osize * 10 % 4294967296 = osize * 10 := Nat.mod_eq_of_lt (by omega)
  have hsum : add32 (add32 (osize * 10 % 4294967296) SIZEOF_POOL) 10 = osize * 10 + 26 := by
    unfold SIZEOF_POOL
    rw [hmul, add32_of_lt (by omega : osize * 10 + 16 < 4294967296), add32_of_lt (by omega)]
  unfold poolBytes
  simp only [hsum]
  by_cases hal : osize * 10 + 26 &&& 0xFFF = 0
  · rw [if_neg (by simp [hal])]
    rw [and_mask_eq_zero] at hal
    omega
  · have hlt : ((osize * 10 + 26) / 4096 + 1) * 4096 < 4294967296 := by omega
    rw [if_pos hal, Nat.shiftRight_eq_div_pow, Nat.shiftLeft_eq, show (2 : Nat) ^ 12 = 4096 from rfl,
      Nat.mod_eq_of_lt hlt]
    rw [and_mask_eq_zero] at hal
    omega

/-- A pool of `osize`-byte slots at `v`, on pages that were free before. -/
structure PoolMade (s : State) (l : List Extent) (osize align v : Nat) (s' : State)
    (l' : List Extent) (slots : List Nat) : Prop where
  represents : Represents s' l'
  taken : covered l' = covered l \ Set.Ico (v - 2147483648) (v - 2147483648 + poolBytes osize)
  wasFree : ∀ b, v ≤ b → b < v + poolBytes osize → b ∈ virt (covered l)
  start_aligned : v % 4096 = 0
  lo : 2155872256 ≤ v
  hi : v + poolBytes osize ≤ 2667577344
  header : NewPool s' v (poolBytes osize) slots
  last : s'.nextPool v = none
  carved : Carved (segmStart v align) (v + poolBytes osize) osize align slots
  nonempty : Roomy osize align → slots ≠ []
  slbHead : s'.slbHead = s.slbHead
  frame : AgreeOn (virt (covered l))ᶜ s.mem s'.mem

theorem poolPages_of_alloc {s s₁ : State} {psize paddr : Nat}
    (h : pagesAlloc s psize = .ok (paddr, s₁)) (hv : P2V paddr ≠ 0) (fuel : Nat) :
    poolPages (fuel + 1) s psize = .ok (P2V paddr, psize, s₁) := by
  rw [poolPages, h, Res.ok_bind]
  dsimp only
  rw [if_neg (fun hc => hv hc.1)]

theorem poolPages_of_error {s : State} {psize : Nat} {e : Halt}
    (h : pagesAlloc s psize = .error e) (fuel : Nat) :
    poolPages (fuel + 1) s psize = .error e := by
  rw [poolPages, h]
  rfl

theorem poolAlloc_of_error {s : State} {osize align : Nat} {e : Halt}
    (h : poolPages walkFuel s (poolBytes osize) = .error e) :
    poolAlloc s osize align = .error e := by
  unfold poolAlloc
  rw [h]
  rfl

theorem poolAlloc_of_pages {s s₁ : State} {osize align v psize : Nat}
    (h : poolPages walkFuel s (poolBytes osize) = .ok (v, psize, s₁)) (hv : v ≠ 0) :
    poolAlloc s osize align =
      (poolSegm s₁ v psize osize align >>= fun r => match r.1 with
        | some _ => .ok (some v, r.2)
        | none => pagesFree r.2 v (add32 v psize) >>= fun c => .ok (none, c.2)) := by
  unfold poolAlloc
  rw [h, Res.ok_bind]
  dsimp only
  exact (if_neg hv).trans rfl

/-- A pool at `v` holds an aligned slot. -/
def Fits (osize align v : Nat) : Prop := segmStart v align + osize ≤ v + poolBytes osize

instance (osize align v : Nat) : Decidable (Fits osize align v) := inferInstanceAs (Decidable (_ ≤ _))

theorem Roomy.fits {osize align v : Nat} (h : Roomy osize align) (hv : v % 4096 = 0)
    (hal : AlignOk align) : Fits osize align v := by
  have hst := (segmStart_spec hv hal).2.1
  unfold Roomy at h
  unfold Fits
  omega

/-- Pages of `psize` bytes that first fit took, at the kernel-virtual address `v`. -/
structure TookPages (s : State) (l : List Extent) (psize v : Nat) (s₁ : State)
    (l' : List Extent) : Prop where
  represents : Represents s₁ l'
  taken : covered l' = covered l \ Set.Ico (v - 2147483648) (v - 2147483648 + psize)
  wasFree : ∀ b, v ≤ b → b < v + psize → b ∈ virt (covered l)
  start_aligned : v % 4096 = 0
  lo : 2155872256 ≤ v
  hi : v + psize ≤ 2667577344
  slbHead : s₁.slbHead = s.slbHead
  frame : AgreeOn (virt (covered l))ᶜ s.mem s₁.mem

section TookPages

variable {s s₁ : State} {l l' : List Extent} {psize osize align v : Nat}

theorem poolPages_fit (h : Represents s l) (hpos : 0 < psize) (hpal : psize % 4096 = 0) :
    (firstFit psize l = none ∧ poolPages walkFuel s psize = .error .spin) ∨
    ∃ a l' s₁, firstFit psize l = some (a, l') ∧
      poolPages walkFuel s psize = .ok (a + 2147483648, psize, s₁) ∧
      TookPages s l psize (a + 2147483648) s₁ l' := by
  obtain ⟨k, hk⟩ : ∃ k, walkFuel = k + 1 := ⟨4294967295, rfl⟩
  rw [hk]
  rcases pagesAlloc_spec h hpos hpal with hfit | hspin
  · obtain ⟨l₁, e, l₂, s₁, rfl, hsmall, hle, hcall, hrep, hframe⟩ := hfit
    have hep := h.paged e (by simp)
    have hepal := hep.start_aligned
    have helo := hep.lo
    have hehi := hep.hi
    unfold Extent.fin at hehi
    have hP2V : P2V e.start = e.start + 2147483648 := P2V_of_lt (by omega)
    have hpages := poolPages_of_alloc hcall (by rw [hP2V]; omega) k
    rw [hP2V] at hpages
    refine Or.inr ⟨e.start, _, s₁, firstFit_found hsmall hle, hpages, hrep, ?_, fun b h₁ h₂ => ?_,
      by omega, by omega, by omega, hframe.slbHead, hframe.mem⟩
    · rw [Nat.add_sub_cancel]
      exact covered_carve h.separated hle
    · refine ⟨by unfold KERNEL_BASE; omega, e, by simp, ?_⟩
      rw [Extent.mem_bytes, KERNEL_BASE, Extent.fin]
      omega
  · exact Or.inl ⟨firstFit_none hspin.1, poolPages_of_error hspin.2 k⟩

theorem TookPages.kept (h : TookPages s l psize v s₁ l') :
    ∀ b ∈ virt (covered l'), ¬ (v ≤ b ∧ b < v + psize) := by
  intro b hb
  have hlo := h.lo
  rw [h.taken] at hb
  have hb₁ := hb.1
  have hb₂ := hb.2.2
  unfold KERNEL_BASE at hb₁ hb₂
  rw [Set.mem_Ico] at hb₂
  omega

theorem TookPages.shrinks (h : TookPages s l psize v s₁ l') :
    virt (covered l') ⊆ virt (covered l) := by
  rw [h.taken]
  exact virt_mono Set.sdiff_subset

/-- The pages are given back at the wrong address. -/
theorem TookPages.lost (h : TookPages s l psize v s₁ l') (hpos : 0 < psize) (hpal : psize % 4096 = 0)
    {s₂ : State} (hfa : s₂.fareaHead = s₁.fareaHead) (hsl : s₂.slbHead = s₁.slbHead)
    (hag : AgreeOn {b | ¬ (v ≤ b ∧ b < v + psize)} s₁.mem s₂.mem) :
    ∃ s', pagesFree s₂ v (v + psize) = .ok (0, s') ∧ Spoilt s l s' := by
  have hlo := h.lo
  have hhi := h.hi
  have hval := h.start_aligned
  obtain ⟨a, rfl⟩ : ∃ a, v = a + 2147483648 := ⟨v - 2147483648, by omega⟩
  have hrep := h.represents.congr hfa (hag.mono h.kept)
  obtain ⟨s₃, hfreed, hchain, hsl₃, hag₃⟩ := @pagesFree_virtual s₂ _ a psize hrep (by omega) hpal
    (by omega) (by omega)
  refine ⟨s₃, hfreed, hsl₃.trans (hsl.trans h.slbHead), ?_, fun t hhead hmem m => ?_⟩
  · refine (h.frame.mono fun b hb => hb.2).trans ((hag.mono fun b hb hin => ?_).trans
      (hag₃.mono fun b hb => ⟨hb.1, fun hc => hb.2 (h.shrinks hc)⟩))
    exact hb.2 (h.wasFree b hin.1 hin.2)
  · have hlist : Chain t.areaNext t.fareaHead (l'.map node ++ [a]) := by
      rw [hhead]
      refine Seg.congr hchain fun b hb => congrArg ptr (load32_congr hmem fun c h₁ h₂ => ?_)
      rcases List.mem_append.1 hb with hb | hb
      · obtain ⟨f, hf, rfl⟩ := List.mem_map.1 hb
        exact Or.inr (h.shrinks (hrep.toFreeList.header_subset hrep.separated hf ⟨h₁, by omega⟩))
      · obtain rfl := List.mem_singleton.1 hb
        exact Or.inl (by omega)
    exact not_represents hlist (by omega) m

end TookPages

/-- What `pool_alloc` does is decided by the pages that first fit takes: there are none and it does
not come back, the first aligned address lies behind them and they are lost, or they become a pool,
with a slot where one fits. -/
theorem poolAlloc_fit {s : State} {l : List Extent} {osize align : Nat} (h : Represents s l)
    (hb : 10 * osize + 26 ≤ 4294963200) (hos : 4 ≤ osize) (hal : AlignOk align) :
    (firstFit (poolBytes osize) l = none ∧ poolAlloc s osize align = .error .spin) ∨
    ∃ a l', firstFit (poolBytes osize) l = some (a, l') ∧ (a + 2147483648) % 4096 = 0 ∧
      ((a + 2147483648 + poolBytes osize ≤ segmStart (a + 2147483648) align ∧
        ∃ s', poolAlloc s osize align = .ok (none, s') ∧ Spoilt s l s') ∨
      (segmStart (a + 2147483648) align < a + 2147483648 + poolBytes osize ∧
        ∃ s' slots, poolAlloc s osize align = .ok (some (a + 2147483648), s') ∧
          PoolMade s l osize align (a + 2147483648) s' l' slots ∧
          (Fits osize align (a + 2147483648) ↔ slots ≠ []))) := by
  obtain ⟨hpal, hple, hplt⟩ := poolBytes_spec hb
  rcases poolPages_fit h (by omega : 0 < poolBytes osize) hpal with hspin | hfit
  · exact Or.inl ⟨hspin.1, poolAlloc_of_error hspin.2⟩
  · obtain ⟨a, l', s₁, hfit, hpages, htook⟩ := hfit
    obtain ⟨v, hv⟩ : ∃ v, v = a + 2147483648 := ⟨_, rfl⟩
    rw [← hv] at hpages htook
    have hlo := htook.lo
    have hhi := htook.hi
    have hval := htook.start_aligned
    have hpa := @poolAlloc_of_pages s s₁ osize align v (poolBytes osize) hpages (by omega)
    refine Or.inr ⟨a, l', hfit, by omega, ?_⟩
    rw [← hv]
    rcases @poolSegm_spec s₁ v (poolBytes osize) osize align hval (by omega) hhi (by omega) hos
      (by omega) hal with hnone | hsome
    · obtain ⟨hout, s₂, hrun, hfa, hsl, hag⟩ := hnone
      obtain ⟨s₃, hfreed, hspoilt⟩ := htook.lost (by omega) hpal hfa hsl hag
      rw [hrun, Res.ok_bind] at hpa
      dsimp only at hpa
      rw [add32_of_lt (by omega), hfreed] at hpa
      exact Or.inl ⟨hout, s₃, hpa, hspoilt⟩
    · obtain ⟨hin, s₂, slots, hrun, hnew, hlast, hcarved, hne, hfa, hsl, hag⟩ := hsome
      rw [hrun, Res.ok_bind] at hpa
      refine Or.inr ⟨hin, s₂, slots, hpa, ⟨htook.represents.congr hfa (hag.mono htook.kept),
        htook.taken, htook.wasFree, hval, hlo, hhi, hnew, hlast, hcarved,
        fun hroom => hne (hroom.fits hval hal), hsl.trans htook.slbHead, ?_⟩, hne, fun hslots => ?_⟩
      · exact htook.frame.trans (hag.mono fun b hb hc => hb (htook.wasFree b hc.1 hc.2))
      · obtain ⟨p, hp⟩ := List.exists_mem_of_ne_nil slots hslots
        have := hcarved.inside p hp
        unfold Fits
        omega

theorem poolAlloc_spec {s : State} {l : List Extent} {osize align : Nat} (h : Represents s l)
    (hb : 10 * osize + 26 ≤ 4294963200) (hos : 4 ≤ osize) (hal : AlignOk align) :
    (∃ v s' l' slots, poolAlloc s osize align = .ok (some v, s') ∧
      PoolMade s l osize align v s' l' slots) ∨
    ((∀ v s', poolAlloc s osize align ≠ .ok (some v, s')) ∧
      (Roomy osize align → poolAlloc s osize align = .error .spin)) := by
  rcases poolAlloc_fit h hb hos hal with hspin | hpages
  · exact Or.inr ⟨fun v s' hv => by rw [hspin.2] at hv; simp at hv, fun _ => hspin.2⟩
  · obtain ⟨a, l', -, hval, hout | hin⟩ := hpages
    · obtain ⟨hout, s', hrun, -⟩ := hout
      refine Or.inr ⟨fun v t hv => by rw [hrun] at hv; simp at hv, fun hroom => ?_⟩
      have hfits := hroom.fits hval hal
      unfold Fits at hfits
      omega
    · obtain ⟨-, s', slots, hrun, hm, -⟩ := hin
      exact Or.inl ⟨_, s', l', slots, hrun, hm⟩

end Aimv6.Mm
