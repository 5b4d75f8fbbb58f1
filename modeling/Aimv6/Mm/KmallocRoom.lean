import Aimv6.Mm.Kmalloc

/-! # The room behind a pointer of `kmalloc`

`up_bound` ends for every size. Above `2 ^ 31` it wraps around to 0, and the slab
allocator then hands out its smallest slot. Bounds from `2 ^ 29` to `2 ^ 31` are
requests that never come back: the size of the pool wraps, or its slots do.
-/

namespace Aimv6.Mm

open Support

/-- The bytes behind the size word in a slot for the bound `b`. -/
def roomOf (b : Nat) : Nat := keySize b - 4

/-! ## The bounds -/

/-- Above `2 ^ 31` the loop goes on until the sum wraps to 0. -/
theorem upBoundLoop_wraps {fuel x : Nat} (hlo : 2147483648 < x) (hlt : x < 4294967296)
    (hfuel : 4294967296 - x + 1 < fuel) : upBoundLoop fuel x = some 0 := by
  induction fuel generalizing x with
  | zero => omega
  | succ fuel ih =>
      obtain ⟨t, hlow, hdvd⟩ := lowbit_spec (by omega) hlt
      have hpos := Nat.two_pow_pos t
      have ht : t ≤ 31 := by
        by_contra hc
        have hbig : 2 ^ 32 ≤ 2 ^ t := Nat.pow_le_pow_right (by decide) (by omega)
        have hle := Nat.le_of_dvd (by omega) hdvd
        omega
      have hsmall : 2 ^ t ≤ 2 ^ 31 := Nat.pow_le_pow_right (by decide) ht
      have hne : x ≠ lowbit x := by
        rw [hlow]
        omega
      have hnext : x + 2 ^ t ≤ 4294967296 := by
        obtain ⟨a, rfl⟩ := hdvd
        obtain ⟨b, hb⟩ := Nat.pow_dvd_pow 2 (by omega : t ≤ 32)
        rw [show (4294967296 : Nat) = 2 ^ 32 from rfl, hb] at hlt ⊢
        have hab : a < b := Nat.lt_of_mul_lt_mul_left hlt
        calc 2 ^ t * a + 2 ^ t = 2 ^ t * (a + 1) := by rw [Nat.mul_add, Nat.mul_one]
          _ ≤ 2 ^ t * b := Nat.mul_le_mul_left _ hab
      rw [upBoundLoop, if_pos hne, hlow]
      by_cases hwrap : x + 2 ^ t = 4294967296
      · have hzero : add32 x (2 ^ t) = 0 := by
          unfold add32
          rw [hwrap]
        rw [hzero]
        cases fuel with
        | zero => omega
        | succ fuel => rfl
      · rw [add32_of_lt (by omega)]
        exact ih (by omega) (by omega) (by omega)

theorem upBound_wraps {size : Nat} (hlo : 2147483648 ≤ size) (hlt : size + 4 < 4294967296) :
    upBound size = .ok 0 := by
  unfold upBound
  rw [add32_of_lt hlt, upBoundLoop_wraps (by omega) hlt (by unfold walkFuel; omega)]
  rfl

theorem upBound_at_most {n size : Nat} (hn : n ≤ 31) (hsize : size + 4 ≤ 2 ^ n) :
    ∃ t ≤ n, upBound size = .ok (2 ^ t) ∧ size + 4 ≤ 2 ^ t := by
  have hpow : 2 ^ n ≤ 2147483648 := Nat.pow_le_pow_right (by decide) hn
  obtain ⟨b, hrun, h₁, h₂, h₃⟩ := @upBoundLoop_spec n walkFuel (size + 4) hn (by omega)
    hsize (by unfold walkFuel; omega)
  obtain ⟨t, hlow, -⟩ := @lowbit_spec b (by omega) (by omega)
  have hbt : b = 2 ^ t := h₃.trans hlow
  refine ⟨t, ?_, ?_, by omega⟩
  · rw [hbt] at h₂
    exact (Nat.pow_le_pow_iff_right (by decide)).1 h₂
  · unfold upBound
    rw [add32_of_lt (by omega), hrun, ← hbt]
    rfl

theorem upBound_below {size : Nat} (hsize : size + 4 ≤ 2147483648) :
    ∃ t ≤ 31, upBound size = .ok (2 ^ t) ∧ size + 4 ≤ 2 ^ t :=
  upBound_at_most (Nat.le_refl 31) hsize

/-! ## Requests that never come back -/

theorem SlabInv.alloc_without_pool {s s' : State} {V : View} {l : List Extent} {size align : Nat}
    {r : Option Nat} (h : SlabInv s V l)
    (hno : ∀ d ∈ V.slabs, V.align d = keyAlign size align → V.osize d ≠ keySize size)
    (hpool : ∀ t l', Represents t l' →
      ∀ c, poolAlloc t (keySize size) (keyAlign size align) ≠ .ok c) :
    slbAllocAlign s size align ≠ .ok (r, s') := by
  intro hc
  obtain ⟨depth, hdepth⟩ : ∃ k, walkFuel = k + 2 := ⟨4294967294, rfl⟩
  obtain ⟨last, hslab⟩ := h.scan_slabs_none _ _ hno
  unfold slbAllocAlign at hc
  rw [hdepth, allocRec_miss hslab] at hc
  rcases h.alloc_descriptor depth with hdesc | hstop
  · obtain ⟨d, s₁, V₁, l₁, v, hrun, -, -, -, -, -, -, -, hreps⟩ := hdesc
    rw [hrun, Res.ok_bind] at hc
    obtain ⟨c, hmade, -⟩ := Res.bind_eq_ok.1 hc
    exact hpool _ l₁ (hreps _ _) c hmade
  · rw [hstop.2] at hc
    exact absurd hc (by simp [bind, Except.bind])

theorem poolAlloc_of_large {s : State} {l : List Extent} {osize align : Nat} (h : Represents s l)
    (hpages : poolBytes osize % 4096 = 0) (hlarge : 536870912 ≤ poolBytes osize) :
    poolAlloc s osize align = .error .spin := by
  obtain ⟨k, hk⟩ : ∃ k, walkFuel = k + 1 := ⟨4294967295, rfl⟩
  have hspin : pagesAlloc s (poolBytes osize) = .error .spin := by
    rcases pagesAlloc_spec h (by omega) hpages with hfit | hspin
    · obtain ⟨l₁, e, l₂, -, rfl, -, hle, -⟩ := hfit
      have hep := h.paged e (by simp)
      have hlo := hep.lo
      have hhi := hep.hi
      unfold Extent.fin at hhi
      omega
    · exact hspin.2
  apply poolAlloc_of_error
  rw [hk]
  exact poolPages_of_error hspin k

/-- Slots aligned to `2 ^ 31`: from 0 on, every second sum is 0 again. -/
theorem segmLoop_wraps {pool lim osize fuel i : Nat} {s : State} (hos : osize ≤ 2147483648)
    (hlim : 2147483648 + osize ≤ lim) (hlt : 2147483648 + osize < 4294967296)
    (hi : i = 0 ∨ i = 2147483648) :
    segmLoop pool lim osize 2147483648 fuel s i = .error .diverge := by
  induction fuel generalizing s i with
  | zero => rfl
  | succ fuel ih =>
      have hstep : (if osize > 2147483648 then osize else 2147483648) = 2147483648 :=
        if_neg (by omega)
      rw [segmLoop, hstep]
      rcases hi with rfl | rfl
      · rw [add32_of_lt (by omega : 0 + osize < 4294967296), if_pos (by omega)]
        exact ih (Or.inr rfl)
      · rw [add32_of_lt hlt, if_pos hlim]
        exact ih (Or.inl rfl)

theorem segm_first_top {pool : Nat} (hlo : 2147483648 ≤ pool) (hhi : pool < 4294967280) :
    (if 2147483648 ≠ 0 ∧ add32 pool 16 &&& sub32 2147483648 1 ≠ 0
      then sub32 (add32 (add32 pool 16) 2147483648) (sub32 2147483648 1 &&& add32 pool 16)
      else add32 pool 16) = 0 := by
  obtain ⟨r, rfl⟩ : ∃ r, pool = 2147483648 + r := ⟨pool - 2147483648, by omega⟩
  have hstart : add32 (2147483648 + r) 16 = 2147483648 + r + 16 := add32_of_lt (by omega)
  have hmask : (2147483648 + r + 16) &&& sub32 2147483648 1 = r + 16 := by
    have hsub : sub32 2147483648 1 = 2 ^ 31 - 1 := rfl
    rw [hsub, Nat.and_two_pow_sub_one_eq_mod]
    omega
  rw [hstart, if_pos ⟨by decide, by rw [hmask]; omega⟩, Nat.and_comm, hmask]
  unfold add32 sub32
  omega

theorem poolSegm_wraps {s : State} {pool psize osize : Nat} (hlo : 2147483648 ≤ pool)
    (hos : osize ≤ psize) (hpos : 0 < psize) (hlt : 2147483648 + osize < 4294967296)
    (hhi : pool + psize < 4294967280) :
    poolSegm s pool psize osize 2147483648 = .error .diverge := by
  have hend : add32 pool psize = pool + psize := add32_of_lt (by omega)
  unfold poolSegm
  dsimp only
  rw [segm_first_top hlo (by omega), hend, if_neg (by omega),
    segmLoop_wraps (by omega) (by omega) hlt (Or.inl rfl)]
  rfl

theorem poolAlloc_wraps {s : State} {l : List Extent} {osize : Nat} {c : Option Nat × State}
    (h : Represents s l) (hb : 10 * osize + 26 ≤ 4294963200) :
    poolAlloc s osize 2147483648 ≠ .ok c := by
  obtain ⟨k, hk⟩ : ∃ k, walkFuel = k + 1 := ⟨4294967295, rfl⟩
  obtain ⟨hbytes, hle, -⟩ := poolBytes_spec hb
  rcases pagesAlloc_spec h (by omega : 0 < poolBytes osize) hbytes with hfit | hspin
  · obtain ⟨l₁, e, l₂, s₁, rfl, -, hle, hcall, -⟩ := hfit
    have hep := h.paged e (by simp)
    have hlo := hep.lo
    have hhi := hep.hi
    unfold Extent.fin at hhi
    obtain ⟨v, hv⟩ : ∃ v, v = e.start + 2147483648 := ⟨_, rfl⟩
    have hP2V : P2V e.start = v := by
      rw [hv]
      exact P2V_of_lt (by omega)
    have hpages := poolPages_of_alloc hcall (by rw [hP2V]; omega) k
    rw [← hk, hP2V] at hpages
    rw [poolAlloc_of_pages hpages (by omega),
      poolSegm_wraps (by omega) (by omega) (by omega) (by omega) (by omega)]
    exact fun hc => absurd hc (by simp [bind, Except.bind])
  · have hstop : poolAlloc s osize 2147483648 = .error .spin := by
      apply poolAlloc_of_error
      rw [hk]
      exact poolPages_of_error hspin.2 k
    rw [hstop]
    simp

/-- No key of a descriptor is as large as the ones for these bounds. -/
theorem SlabInv.alloc_huge {s s' : State} {V : View} {l : List Extent} {t : Nat} {r : Option Nat}
    (h : SlabInv s V l) (hlo : 29 ≤ t) (hhi : t ≤ 31) : slbAlloc s (2 ^ t) ≠ .ok (r, s') := by
  have hcases : t = 29 ∨ t = 30 ∨ t = 31 := by omega
  unfold slbAlloc
  rcases hcases with rfl | rfl | rfl
  · refine h.alloc_without_pool (fun d hd _ hos => ?_) fun u l' hu c hc => ?_
    · have hsmall := (h.layout.key_ok d hd).small
      rw [hos, show keySize (2 ^ 29) = 536870912 from rfl] at hsmall
      omega
    · rw [poolAlloc_of_large hu (by decide) (by decide)] at hc
      exact absurd hc (by simp)
  · refine h.alloc_without_pool (fun d hd _ hos => ?_) fun u l' hu c hc => ?_
    · have hsmall := (h.layout.key_ok d hd).small
      rw [hos, show keySize (2 ^ 30) = 1073741824 from rfl] at hsmall
      omega
    · rw [poolAlloc_of_large hu (by decide) (by decide)] at hc
      exact absurd hc (by simp)
  · refine h.alloc_without_pool (fun d hd hal _ => ?_) fun u l' hu c hc => ?_
    · have hle := (h.layout.key_ok d hd).align_ok.le
      rw [hal, show keyAlign (2 ^ 31) 0 = 2147483648 from rfl] at hle
      omega
    · exact poolAlloc_wraps hu (by decide : 10 * 4 + 26 ≤ 4294963200) hc

/-! ## What `kmalloc` hands out -/

/-- Behind a pointer that `kmalloc` hands out for a size below `2 ^ 31` there is room for that
many bytes, within the pools. -/
theorem SlabInv.kmalloc_room {s s' : State} {V : View} {l : List Extent} {size q : Nat}
    (h : SlabInv s V l) (hsize : size + 4 ≤ 2147483648)
    (hrun : kmalloc s size = .ok (some q, s')) :
    ∃ b, upBound size = .ok b ∧ size ≤ roomOf b ∧ q + roomOf b ≤ 2667577344 := by
  obtain ⟨t, ht, hb, hle⟩ := upBound_below hsize
  obtain ⟨p, u, halloc, rfl, -⟩ := kmalloc_of_some hb hrun
  by_cases hlarge : 29 ≤ t
  · exact absurd halloc (h.alloc_huge hlarge ht)
  · have hsmall : 2 ^ t ≤ 2 ^ 28 := Nat.pow_le_pow_right (by decide) (by omega)
    have hreq : Request (2 ^ t) 0 := ⟨by omega, by omega, Or.inl rfl⟩
    have hroom : roomOf (2 ^ t) = 2 ^ t - 4 := by
      unfold roomOf
      rw [hreq.keySize_eq]
      omega
    rcases h.alloc_spec hreq.keyOk with hmade | hno
    · obtain ⟨p', u', V', l', hrun', ha⟩ := hmade
      obtain ⟨hp, -⟩ := Prod.mk.inj (Except.ok.inj (halloc.symm.trans hrun'))
      obtain rfl := Option.some.inj hp
      obtain ⟨d, pre, v, post, hd, -, hos, hpools, -, hin⟩ := ha.slot
      have hv : V'.Pool d v := ⟨hd, by simp [hpools]⟩
      have htaken : p ∈ V'.taken := by
        rcases ha.taken with ⟨ht', -⟩ | ⟨e, ht', -⟩ <;> simp [ht']
      have hslot := (ha.inv.layout.pool_ok d v hv).inside p
        (View.mem_slots.2 (Or.inr (View.mem_used.2 ⟨htaken, hin⟩)))
      have hhi := (ha.inv.layout.pool_ok d v hv).hi
      rw [hos, hreq.keySize_eq] at hslot
      refine ⟨2 ^ t, hb, by omega, ?_⟩
      rw [hroom, add32_of_lt (by omega)]
      omega
    · exact absurd halloc (hno.1 p u)

theorem roomOf_zero : roomOf 0 = 0 := by decide

end Aimv6.Mm
