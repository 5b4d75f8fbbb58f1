import Aimv6.Mm.SlabLayout

/-! # The layout in memory

`Stored s V` says that the memory holds the linked structure `V`: every word of
a descriptor and of a pool header, and the links through the free slots. Each
store of the allocator has one lemma that follows it in the view. Stores outside
these words, by clients or into free pages, leave it alone.
-/

namespace Aimv6.Mm

open Support

structure SlabStored (s : State) (V : View) (d : Nat) : Prop where
  align : s.objAlign d = V.align d
  size : s.objSize d = V.osize d
  pools : Chain s.nextPool (s.poolHead d) (V.pools d)

structure PoolStored (s : State) (V : View) (v : Nat) : Prop where
  size : s.poolSize v = V.psize v
  objs : Chain s.nextObj (s.objHead v) (V.free v)
  cnt : s.cntInuse v = V.count v

structure Stored (s : State) (V : View) : Prop where
  slabs : Chain s.nextSlb s.slbHead V.slabs
  slab : ∀ d ∈ V.slabs, SlabStored s V d
  pool : ∀ d v, V.Pool d v → PoolStored s V v

variable {s s' : State} {V V' : View} {F : Set Nat} {d v p : Nat}

theorem SlabStored.congr (h : SlabStored s V d) (hal : V'.align d = V.align d)
    (hos : V'.osize d = V.osize d) (hpools : V'.pools d = V.pools d)
    (h₀ : s'.word d = s.word d) (h₄ : s'.word (d + 4) = s.word (d + 4))
    (h₈ : s'.word (d + 8) = s.word (d + 8))
    (hnext : ∀ v ∈ V.pools d, s'.word (v + 12) = s.word (v + 12)) : SlabStored s' V' d where
  align := by
    rw [hal]
    exact h₀.trans h.align
  size := by
    rw [hos]
    exact h₄.trans h.size
  pools := by
    have hhead : s'.poolHead d = s.poolHead d := congrArg ptr h₈
    rw [hpools, hhead]
    exact Seg.congr h.pools fun v hv => congrArg ptr (hnext v hv)

theorem PoolStored.congr (h : PoolStored s V v) (hps : V'.psize v = V.psize v)
    (hfree : V'.free v = V.free v) (hcnt : V'.count v = V.count v) (h₀ : s'.word v = s.word v)
    (h₄ : s'.word (v + 4) = s.word (v + 4)) (h₈ : s'.word (v + 8) = s.word (v + 8))
    (hobj : ∀ p ∈ V.free v, s'.word p = s.word p) : PoolStored s' V' v where
  size := by
    rw [hps]
    exact h₄.trans h.size
  objs := by
    have hhead : s'.objHead v = s.objHead v := congrArg ptr h₈
    rw [hfree, hhead]
    exact Seg.congr h.objs fun p hp => congrArg ptr (hobj p hp)
  cnt := by
    rw [hcnt]
    exact h₀.trans h.cnt

def View.linkBytes (V : View) : Set Nat :=
  {b | (∃ d ∈ V.slabs, d ≤ b ∧ b < d + 16) ∨
    ∃ d v, V.Pool d v ∧ (v ≤ b ∧ b < v + 16 ∨ ∃ p ∈ V.free v, p ≤ b ∧ b < p + 4)}

theorem Stored.congr (h : Stored s V) (hhead : s'.slbHead = s.slbHead)
    (hm : AgreeOn V.linkBytes s.mem s'.mem) : Stored s' V := by
  have hslab : ∀ d ∈ V.slabs, ∀ a, d ≤ a → a + 4 ≤ d + 16 → s'.word a = s.word a :=
    fun d hd a h₁ h₂ => load32_congr hm fun b h₃ h₄ => Or.inl ⟨d, hd, by omega, by omega⟩
  have hpool : ∀ d v, V.Pool d v → ∀ a, v ≤ a → a + 4 ≤ v + 16 → s'.word a = s.word a :=
    fun d v hv a h₁ h₂ =>
      load32_congr hm fun b h₃ h₄ => Or.inr ⟨d, v, hv, Or.inl ⟨by omega, by omega⟩⟩
  refine ⟨?_, fun d hd => ?_, fun d v hv => ?_⟩
  · rw [hhead]
    exact Seg.congr h.slabs fun d hd => congrArg ptr (hslab d hd _ (by omega) (by omega))
  · exact (h.slab d hd).congr rfl rfl rfl (hslab d hd _ (by omega) (by omega))
      (hslab d hd _ (by omega) (by omega)) (hslab d hd _ (by omega) (by omega))
      fun v hv => hpool d v ⟨hd, hv⟩ _ (by omega) (by omega)
  · exact (h.pool d v hv).congr rfl rfl rfl (hpool d v hv _ (by omega) (by omega))
      (hpool d v hv _ (by omega) (by omega)) (hpool d v hv _ (by omega) (by omega))
      fun p hp => load32_congr hm fun b h₁ h₂ => Or.inr ⟨d, v, hv, Or.inr ⟨p, hp, h₁, h₂⟩⟩

theorem Layout.link_fresh (h : Layout V F) {b : Nat} (hb : b ∈ V.linkBytes) : b ∉ F := by
  have hinside : ∀ d w p, V.Pool d w → p ∈ V.slots w → p ≤ b → b < p + V.osize d → b ∉ F := by
    intro d w p hw hp h₁ h₂
    have hin := (h.pool_ok d w hw).inside p hp
    exact (h.pool_ok d w hw).fresh b (by omega) (by omega)
  rcases hb with ⟨d, hd, h₁, h₂⟩ | ⟨d, v, hv, ⟨h₁, h₂⟩ | ⟨p, hp, h₁, h₂⟩⟩
  · obtain ⟨w, hw, hdw⟩ := h.descriptor_slot hd
    refine hinside _ w d hw hdw h₁ ?_
    rw [h.first_key.2]
    exact h₂
  · have := (h.pool_ok d v hv).room
    exact (h.pool_ok d v hv).fresh b h₁ (by omega)
  · have hpos := (h.key_ok d hv.1).size_pos
    exact hinside d v p hv (View.mem_slots.2 (Or.inl hp)) h₁ (by omega)

theorem Layout.link_high (h : Layout V F) {b : Nat} (hb : b ∈ V.linkBytes) : 2147483648 ≤ b := by
  rcases hb with ⟨d, hd, h₁, h₂⟩ | ⟨d, v, hv, ⟨h₁, h₂⟩ | ⟨p, hp, h₁, h₂⟩⟩
  · obtain ⟨w, hw, hdw⟩ := h.descriptor_slot hd
    have := h.slot_bounds hw hdw
    omega
  · have := (h.pool_ok d v hv).lo
    omega
  · have := h.slot_bounds hv (View.mem_slots.2 (Or.inl hp))
    omega

/-- The bytes of a slot handed out to a client hold nothing of the linked structure. -/
theorem Layout.link_not_taken (h : Layout V F) {b : Nat} (hv : V.Pool d v) (hp : p ∈ V.used v)
    (hnd : p ∉ V.slabs) (hb : b ∈ V.linkBytes) : ¬ (p ≤ b ∧ b < p + V.osize d) := by
  have hps : p ∈ V.slots v := View.mem_slots.2 (Or.inr hp)
  rcases hb with ⟨e, he, h₁, h₂⟩ | ⟨e, w, hw, ⟨h₁, h₂⟩ | ⟨q, hq, h₁, h₂⟩⟩
  · have hne : p ≠ e := fun hc => hnd (hc ▸ he)
    have := h.descriptor_slot_apart he hv hps hne
    omega
  · have := h.header_slot_apart hw hv hps
    omega
  · have hpos := (h.key_ok e hw.1).size_pos
    have hne : p ≠ q := fun hc =>
      h.free_not_taken hw hq (hc ▸ (View.mem_used.1 hp).1)
    have := h.slot_apart hv hw hps (View.mem_slots.2 (Or.inl hq)) hne
    omega

/-! ## Counting -/

theorem Layout.count_take (h : Layout V F) {rest : List Nat} (hv : V.Pool d v)
    (hfree : V.free v = p :: rest) {e w : Nat} (hw : V.Pool e w) :
    (V.reslot v rest (p :: V.taken)).count w = V.count w + if w = v then 1 else 0 := by
  have hpf : p ∈ V.free v := by simp [hfree]
  have hin := (h.pool_ok d v hv).inside p (View.mem_slots.2 (Or.inl hpf))
  have hpos := (h.key_ok d hv.1).size_pos
  have hfirst : p ≠ V.first := fun hc =>
    h.free_not_taken hv hpf (hc ▸ (h.descriptor V.first h.first_mem).1)
  show (p :: V.taken).countP (fun q => V.inPool w q && decide (q ≠ V.first)) = _
  rw [List.countP_cons]
  by_cases hwv : w = v
  · subst hwv
    have hpw : V.inPool w p = true := View.inPool_iff.2 (by omega)
    simp [hpw, hfirst, View.count]
  · have hpw : ¬ (V.inPool w p = true) := fun hc =>
      hwv (h.pool_unique hw hv (View.inPool_iff.1 hc) (by omega))
    simp [hpw, hwv, View.count]

theorem Layout.count_put (h : Layout V F) (hv : V.Pool d v) (hp : p ∈ V.used v)
    (hnd : p ∉ V.slabs) {e w : Nat} (hw : V.Pool e w) :
    V.count w = (V.reslot v (p :: V.free v) (V.taken.erase p)).count w +
      if w = v then 1 else 0 := by
  obtain ⟨ht, hin⟩ := View.mem_used.1 hp
  have hfirst : p ≠ V.first := fun hc => hnd (hc ▸ h.first_mem)
  have hperm := (List.perm_cons_erase ht).countP_eq
    (fun q => V.inPool w q && decide (q ≠ V.first))
  show V.taken.countP (fun q => V.inPool w q && decide (q ≠ V.first)) = _
  rw [hperm, List.countP_cons]
  by_cases hwv : w = v
  · subst hwv
    have hpw : V.inPool w p = true := View.inPool_iff.2 hin
    rw [if_pos rfl, if_pos (by simp [hpw, hfirst])]
    rfl
  · have hpw : ¬ (V.inPool w p = true) := fun hc =>
      hwv (h.pool_unique hw hv (View.inPool_iff.1 hc) hin)
    rw [if_neg hwv, if_neg (by simp [hpw])]
    rfl

/-! ## The stores of the allocator -/

/-- Stores into the counter and the list head of one pool and into one of its slots. -/
theorem Stored.reslot (hL : Layout V F) (h : Stored s V) (hv : V.Pool d v) (hp : p ∈ V.slots v)
    (hnd : p ∉ V.slabs) {free taken : List Nat} (hsl : s'.slbHead = s.slbHead)
    (hword : ∀ a, a + 4 ≤ v ∨ v + 4 ≤ a → a + 4 ≤ v + 8 ∨ v + 12 ≤ a → a + 4 ≤ p ∨ p + 4 ≤ a →
      s'.word a = s.word a)
    (hchain : Chain s'.nextObj (s'.objHead v) free)
    (hcntv : s'.cntInuse v = (V.reslot v free taken).count v)
    (hcnt : ∀ e w, V.Pool e w → w ≠ v → (V.reslot v free taken).count w = V.count w) :
    Stored s' (V.reslot v free taken) := by
  have hpos := (hL.key_ok d hv.1).size_pos
  have hpd : ∀ e ∈ V.slabs, p + 4 ≤ e ∨ e + 16 ≤ p := by
    intro e he
    have hne : p ≠ e := fun hc => hnd (hc ▸ he)
    have := hL.descriptor_slot_apart he hv hp hne
    omega
  have hph : ∀ e w, V.Pool e w → w + 16 ≤ p ∨ p + 4 ≤ w := by
    intro e w hw
    have := hL.header_slot_apart hw hv hp
    omega
  refine ⟨?_, fun e he => ?_, fun e w hw => ?_⟩
  · rw [hsl]
    refine Seg.congr h.slabs fun e he => congrArg ptr ?_
    have h₁ := hL.descriptor_header_apart he hv
    have h₂ := hpd e he
    exact hword _ (by omega) (by omega) (by omega)
  · have h₁ := hL.descriptor_header_apart he hv
    have h₂ := hpd e he
    refine (h.slab e he).congr rfl rfl rfl (hword _ (by omega) (by omega) (by omega))
      (hword _ (by omega) (by omega) (by omega)) (hword _ (by omega) (by omega) (by omega))
      fun w hw => ?_
    have h₃ := hph e w ⟨he, hw⟩
    by_cases hwv : w = v
    · subst hwv
      exact hword _ (by omega) (by omega) (by omega)
    · have h₄ := hL.header_apart ⟨he, hw⟩ hv hwv
      exact hword _ (by omega) (by omega) (by omega)
  · have h₃ := hph e w hw
    by_cases hwv : w = v
    · subst hwv
      refine ⟨?_, ?_, hcntv⟩
      · exact (hword _ (by omega) (by omega) (by omega)).trans (h.pool e w hw).size
      · have hfr : (V.reslot w free taken).free w = free := Function.update_self _ _ _
        rw [hfr]
        exact hchain
    · have h₄ := hL.header_apart hw hv hwv
      refine (h.pool e w hw).congr rfl (Function.update_of_ne hwv _ _) (hcnt e w hw hwv)
        (hword _ (by omega) (by omega) (by omega)) (hword _ (by omega) (by omega) (by omega))
        (hword _ (by omega) (by omega) (by omega)) fun q hq => ?_
      have hqs : q ∈ V.slots w := View.mem_slots.2 (Or.inl hq)
      have hqpos := (hL.key_ok e hw.1).size_pos
      have h₅ := hL.header_slot_apart hv hw hqs
      have hne : q ≠ p := by
        intro hc
        subst hc
        have h₆ := (hL.pool_ok e w hw).inside q hqs
        have h₇ := (hL.pool_ok d v hv).inside q hp
        exact hwv (hL.pool_unique (p := q) hw hv (by omega) (by omega))
      have h₈ := hL.slot_apart hw hv hqs hp hne
      exact hword _ (by omega) (by omega) (by omega)

theorem Stored.take (hL : Layout V F) (h : Stored s V) {rest : List Nat} (hv : V.Pool d v)
    (hfree : V.free v = p :: rest) :
    ∃ s', s.takeObj v = .ok (some p, s') ∧ Stored s' (V.reslot v rest (p :: V.taken)) ∧
      s'.fareaHead = s.fareaHead ∧ s'.slbHead = s.slbHead ∧
      AgreeOn {b | ¬ (v ≤ b ∧ b < v + 16)} s.mem s'.mem := by
  have hps := h.pool d v hv
  have hchain := hps.objs
  rw [hfree] at hchain
  obtain ⟨hhead, hrest⟩ := hchain
  have hcnt := hps.cnt
  have hcle := hL.count_le v
  have hpf : p ∈ V.free v := by simp [hfree]
  have hslot : p ∈ V.slots v := View.mem_slots.2 (Or.inl hpf)
  have hnd : p ∉ V.slabs := fun hc => hL.free_not_taken hv hpf (hL.descriptor p hc).1
  have hnext : s.nextObj p = ptr (s.word p) := rfl
  obtain ⟨t, ht⟩ : ∃ t, t = (s.setObjHead v (s.nextObj p)).setCntInuse v
      (add32 (s.cntInuse v) 1) := ⟨_, rfl⟩
  have hcntv : (s.setObjHead v (s.nextObj p)).cntInuse v = s.cntInuse v :=
    State.word_setWord_ne _ (by omega)
  have hword : ∀ a, a + 4 ≤ v ∨ v + 4 ≤ a → a + 4 ≤ v + 8 ∨ v + 12 ≤ a →
      t.word a = s.word a := by
    intro a h₁ h₂
    rw [ht]
    unfold State.setObjHead State.setCntInuse
    rw [State.word_setWord_ne _ (by omega), State.word_setWord_ne _ (by omega)]
  have hword₀ : t.word v = s.cntInuse v + 1 := by
    rw [ht, add32_of_lt (by omega)]
    exact State.word_setWord_same _ (by omega)
  have hword₈ : t.word (v + 8) = s.word p := by
    rw [ht]
    unfold State.setObjHead State.setCntInuse
    rw [State.word_setWord_ne _ (by omega), State.word_setWord_same _ (by
      rw [hnext, ptrVal_ptr]
      exact State.word_lt s p), hnext, ptrVal_ptr]
  refine ⟨t, ?_, ?_, by rw [ht]; rfl, by rw [ht]; rfl, ?_⟩
  · unfold State.takeObj
    rw [hhead]
    dsimp only
    rw [hcntv, ← ht]
  · refine h.reslot hL hv hslot hnd (by rw [ht]; rfl) (fun a h₁ h₂ _ => hword a h₁ h₂) ?_ ?_ ?_
    · have hoh : t.objHead v = s.nextObj p := congrArg ptr hword₈
      rw [hoh]
      refine Seg.congr hrest fun q hq => congrArg ptr ?_
      have hqs : q ∈ V.slots v := View.mem_slots.2 (Or.inl (by simp [hfree, hq]))
      have h₁ := hL.header_slot_apart hv hv hqs
      have h₂ := (hL.key_ok d hv.1).size_pos
      exact hword _ (by omega) (by omega)
    · rw [hL.count_take hv hfree hv, if_pos rfl, ← hcnt]
      exact hword₀
    · intro e w hw hwv
      rw [hL.count_take hv hfree hw, if_neg hwv, Nat.add_zero]
  · rw [ht]
    intro b hb
    have hb' : ¬ (v ≤ b ∧ b < v + 16) := hb
    exact (store32_apply_of_outside (by omega)).trans (store32_apply_of_outside (by omega))

/-- What `slb_free_align` does to the pool that holds `p`. -/
def State.putObj (s : State) (v p : Nat) : State :=
  (s.pushObj v p).setCntInuse v (sub32 ((s.pushObj v p).cntInuse v) 1)

theorem Stored.put (hL : Layout V F) (h : Stored s V) (hv : V.Pool d v) (hp : p ∈ V.used v)
    (hnd : p ∉ V.slabs) :
    Stored (s.putObj v p) (V.reslot v (p :: V.free v) (V.taken.erase p)) ∧
      AgreeOn {b | ¬ (v ≤ b ∧ b < v + 16) ∧ ¬ (p ≤ b ∧ b < p + 4)} s.mem (s.putObj v p).mem := by
  have hps := h.pool d v hv
  have hslot : p ∈ V.slots v := View.mem_slots.2 (Or.inr hp)
  have hpos := (hL.key_ok d hv.1).size_pos
  have hbounds := hL.slot_bounds hv hslot
  have hvp := (hL.pool_ok d v hv).inside p hslot
  have hcount := hL.count_put hv hp hnd hv
  rw [if_pos rfl] at hcount
  have hcle := hL.count_le v
  have hcnt : (s.pushObj v p).cntInuse v = V.count v :=
    (pushObj_word_ne (by omega) (by omega)).trans hps.cnt
  have hword : ∀ a, a + 4 ≤ v ∨ v + 4 ≤ a → a + 4 ≤ v + 8 ∨ v + 12 ≤ a →
      a + 4 ≤ p ∨ p + 4 ≤ a → (s.putObj v p).word a = s.word a := by
    intro a h₁ h₂ h₃
    unfold State.putObj State.setCntInuse
    rw [State.word_setWord_ne _ (by omega), pushObj_word_ne (by omega) (by omega)]
  have hkeep : ∀ a, a + 4 ≤ v ∨ v + 4 ≤ a → (s.putObj v p).word a = (s.pushObj v p).word a :=
    fun a h₁ => State.word_setWord_ne _ (by omega)
  refine ⟨h.reslot hL hv hslot hnd rfl hword ?_ ?_ ?_, ?_⟩
  · have hpush := pushObj_chain (s := s) (v := v) (i := p) (by omega) (by omega) (by omega) hps.objs
      (fun q hq => by
        have hqs : q ∈ V.slots v := View.mem_slots.2 (Or.inl hq)
        have hne : q ≠ p := fun hc => hL.free_not_taken hv hq (hc ▸ (View.mem_used.1 hp).1)
        have h₁ := hL.slot_apart hv hv hqs hslot hne
        have h₂ := (hL.pool_ok d v hv).inside q hqs
        omega)
    have hhead : (s.putObj v p).objHead v = (s.pushObj v p).objHead v :=
      congrArg ptr (hkeep _ (by omega))
    rw [hhead]
    refine Seg.congr hpush fun q hq => congrArg ptr (hkeep q ?_)
    rcases List.mem_cons.1 hq with rfl | hq
    · omega
    · have h₂ := (hL.pool_ok d v hv).inside q (View.mem_slots.2 (Or.inl hq))
      omega
  · have hcell : (s.putObj v p).cntInuse v = sub32 ((s.pushObj v p).cntInuse v) 1 :=
      State.word_setWord_same _ (by unfold sub32; omega)
    rw [hcell, hcnt, sub32_of_le (by omega) (by omega)]
    omega
  · intro e w hw hwv
    have := hL.count_put hv hp hnd hw
    rw [if_neg hwv] at this
    exact this.symm
  · intro b hb
    have h₁ : ¬ (v ≤ b ∧ b < v + 16) := hb.1
    have h₂ : ¬ (p ≤ b ∧ b < p + 4) := hb.2
    exact ((store32_apply_of_outside (by omega)).trans (store32_apply_of_outside (by omega))).trans
      (store32_apply_of_outside (by omega))

theorem NewPool.congr {psize : Nat} {slots : List Nat} (h : NewPool s v psize slots)
    (hslots : ∀ q ∈ slots, v + 16 ≤ q)
    (hword : ∀ a, v ≤ a → a + 4 ≤ v + 12 ∨ a ∈ slots → s'.word a = s.word a) :
    NewPool s' v psize slots where
  cnt := (hword v (Nat.le_refl v) (Or.inl (by omega))).trans h.cnt
  size := (hword (v + 4) (by omega) (Or.inl (by omega))).trans h.size
  objs := by
    have hhead : s'.objHead v = s.objHead v :=
      congrArg ptr (hword (v + 8) (by omega) (Or.inl (by omega)))
    rw [hhead]
    refine Seg.congr h.objs fun q hq => congrArg ptr (hword q ?_ (Or.inr hq))
    have := hslots q hq
    omega

theorem NewPool.stored {psize : Nat} {slots : List Nat} (h : NewPool s v psize slots)
    (hps : V.psize v = psize) (hfree : V.free v = slots) (hcnt : V.count v = 0) :
    PoolStored s V v where
  size := by
    rw [hps]
    exact h.size
  objs := by
    rw [hfree]
    exact h.objs
  cnt := by
    rw [hcnt]
    exact h.cnt

theorem Layout.count_fresh (h : Layout V F) {psize : Nat} {slots : List Nat}
    (hfree : ∀ b, v ≤ b → b < v + psize → b ∈ F) :
    (V.addPool d v psize slots).count v = 0 := by
  refine List.countP_eq_zero.2 fun p hp hin => ?_
  obtain ⟨e, w, hw, hpw⟩ := h.taken_pool p hp
  have hpv := View.inPool_iff.1 (Bool.and_eq_true_iff.1 hin).1
  simp only [View.addPool, Function.update_self] at hpv
  exact (h.pool_ok e w hw).fresh p hpw.1 hpw.2 (hfree p hpv.1 hpv.2)

theorem Layout.count_addPool (h : Layout V F) {psize e w : Nat} {slots : List Nat}
    (hpos : 0 < psize) (hfree : ∀ b, v ≤ b → b < v + psize → b ∈ F) (hw : V.Pool e w) :
    (V.addPool d v psize slots).count w = V.count w ∧ w ≠ v := by
  have hne : w ≠ v := by
    intro hwv
    have h₁ := h.fresh_apart hpos hfree hw
    have h₂ := (h.pool_ok e w hw).room
    omega
  refine ⟨?_, hne⟩
  have hpred : (V.addPool d v psize slots).inPool w = V.inPool w := by
    funext p
    unfold View.inPool
    simp only [View.addPool, Function.update_of_ne hne]
  unfold View.count
  rw [hpred]
  rfl

theorem Stored.linkPool (hL : Layout V F) (h : Stored s V) {psize : Nat} {slots : List Nat}
    (hd : d ∈ V.slabs) (hpos : 16 ≤ psize) (hfree : ∀ b, v ≤ b → b < v + psize → b ∈ F)
    (hbounds : 0 < v ∧ v < 4294967296)
    (hnew : NewPool s v psize slots) (hslots : ∀ q ∈ slots, v + 16 ≤ q ∧ q + 4 ≤ v + psize)
    (hlink : s.nextPool v = s.poolHead d) :
    Stored (s.setPoolHead d (some v)) (V.addPool d v psize slots) := by
  have hdv : d + 16 ≤ v ∨ v + psize ≤ d := by
    by_contra hmeet
    refine hL.link_fresh (b := max d v) (Or.inl ⟨d, hd, by omega, by omega⟩) ?_
    exact hfree _ (by omega) (by omega)
  have hword : ∀ a, a + 4 ≤ d + 8 ∨ d + 12 ≤ a → (s.setPoolHead d (some v)).word a = s.word a :=
    fun a ha => State.word_setWord_ne _ (by omega)
  have hhead : (s.setPoolHead d (some v)).poolHead d = some v := by
    unfold State.poolHead State.setPoolHead
    rw [ptrVal_some, State.word_setWord_same _ hbounds.2]
    exact ptr_of_pos hbounds.1
  refine ⟨?_, fun e he => ?_, fun e w hw => ?_⟩
  · refine Seg.congr h.slabs fun e he => congrArg ptr (hword _ ?_)
    by_cases hed : e = d
    · omega
    · have := hL.descriptor_apart he hd hed
      omega
  · have hheads : ∀ w ∈ V.pools e, (s.setPoolHead d (some v)).word (w + 12) = s.word (w + 12) := by
      intro w hw
      have := hL.descriptor_header_apart hd ⟨he, hw⟩
      exact hword _ (by omega)
    by_cases hed : e = d
    · subst hed
      have hold := h.slab e he
      refine ⟨(hword _ (by omega)).trans hold.align, (hword _ (by omega)).trans hold.size, ?_⟩
      simp only [View.addPool, Function.update_self]
      refine ⟨hhead, ?_⟩
      have hnext : (s.setPoolHead e (some v)).nextPool v = s.poolHead e :=
        (congrArg ptr (hword _ (by omega))).trans hlink
      rw [hnext]
      exact Seg.congr hold.pools fun w hw => congrArg ptr (hheads w hw)
    · have hapart := hL.descriptor_apart he hd hed
      exact (h.slab e he).congr rfl rfl (Function.update_of_ne hed _ _) (hword _ (by omega))
        (hword _ (by omega)) (hword _ (by omega)) hheads
  · rcases (Layout.addPool_pool hd).1 hw with hv | hold
    · obtain ⟨-, rfl⟩ := hv
      refine NewPool.stored (hnew.congr (fun q hq => (hslots q hq).1) fun a h₁ h₂ => hword a ?_)
        (Function.update_self _ _ _) (Function.update_self _ _ _) (hL.count_fresh hfree)
      rcases h₂ with h₂ | h₂
      · omega
      · have := hslots a h₂
        omega
    · obtain ⟨hcount, hwv⟩ :=
        hL.count_addPool (d := d) (by omega : 0 < psize) hfree hold
      have hapart := hL.descriptor_header_apart hd hold
      refine (h.pool e w hold).congr (Function.update_of_ne hwv _ _) (Function.update_of_ne hwv _ _)
        hcount (hword _ (by omega)) (hword _ (by omega)) (hword _ (by omega)) fun q hq => ?_
      have hne : q ≠ d := fun hc =>
        hL.free_not_taken hold hq (hc ▸ (hL.descriptor d hd).1)
      have hsize := (hL.key_ok e hold.1).size_pos
      have := hL.descriptor_slot_apart hd hold (View.mem_slots.2 (Or.inl hq)) hne
      exact hword _ (by omega)

/-- `slb_head = iter_slb`, for a descriptor that is filled in and has one pool. -/
theorem Stored.linkSlab (hL : Layout V F) (h : Stored s V) {align osize psize : Nat}
    {slots : List Nat} (hds : d ∉ V.slabs) (hpos : 0 < psize)
    (hfree : ∀ b, v ≤ b → b < v + psize → b ∈ F) (hnew : NewPool s v psize slots)
    (hlast : s.nextPool v = none) (hal : s.objAlign d = align) (hos : s.objSize d = osize)
    (hhead : s.poolHead d = some v) (hnext : s.nextSlb d = s.slbHead) :
    Stored { s with slbHead := some d } ((V.addSlab d align osize).addPool d v psize slots) := by
  refine ⟨⟨rfl, ?_⟩, fun e he => ?_, fun e w hw => ?_⟩
  · show Seg s.nextSlb (s.nextSlb d) V.slabs none
    rw [hnext]
    exact h.slabs
  · rcases List.mem_cons.1 he with rfl | hold
    · refine ⟨?_, ?_, ?_⟩
      · show s.objAlign e = Function.update V.align e align e
        rw [Function.update_self]
        exact hal
      · show s.objSize e = Function.update V.osize e osize e
        rw [Function.update_self]
        exact hos
      · simp only [View.addPool, View.addSlab, Function.update_self]
        refine ⟨hhead, ?_⟩
        show s.nextPool v = none
        exact hlast
    · have hed : e ≠ d := fun hc => hds (hc ▸ hold)
      refine (h.slab e hold).congr (Function.update_of_ne hed _ _) (Function.update_of_ne hed _ _)
        ?_ rfl rfl rfl fun _ _ => rfl
      simp only [View.addPool, View.addSlab, Function.update_of_ne hed]
  · rcases (Layout.addPool_pool (List.mem_cons_self ..)).1 hw with hv | hold
    · obtain ⟨-, rfl⟩ := hv
      exact NewPool.stored ⟨hnew.cnt, hnew.size, hnew.objs⟩ (Function.update_self _ _ _)
        (Function.update_self _ _ _) (@Layout.count_fresh V F d w hL psize slots hfree)
    · obtain ⟨-, hold⟩ := Layout.addSlab_pool.1 hold
      obtain ⟨hcount, hwv⟩ := @Layout.count_addPool V F d v hL psize e w slots hpos hfree hold
      exact (h.pool e w hold).congr (Function.update_of_ne hwv _ _) (Function.update_of_ne hwv _ _)
        hcount rfl rfl rfl fun _ _ => rfl

end Aimv6.Mm
