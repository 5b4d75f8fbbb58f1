import Aimv6.Mm.SlabPool
import Mathlib.Logic.Function.Basic

/-! # The layout of the slab allocator

A view names what the links from `slb_head` lead to: the descriptors, the pools
of each, the free slots of each pool, and the slots handed out. Its layout says
where these lie. Pools are apart from each other and from free pages, and the
slots of a pool, free or handed out, are apart and behind its header.
-/

namespace Aimv6.Mm

open Support

structure View where
  /-- the descriptors, in the order of the list -/
  slabs : List Nat
  pools : Nat → List Nat
  free : Nat → List Nat
  /-- the slots handed out, descriptors included -/
  taken : List Nat
  /-- the descriptor that `slb_init` takes -/
  first : Nat
  align : Nat → Nat
  osize : Nat → Nat
  psize : Nat → Nat

namespace View

def Pool (V : View) (d v : Nat) : Prop := d ∈ V.slabs ∧ v ∈ V.pools d

def inPool (V : View) (v p : Nat) : Bool := decide (v ≤ p ∧ p < v + V.psize v)

@[simp] theorem inPool_iff {V : View} {v p : Nat} :
    V.inPool v p = true ↔ v ≤ p ∧ p < v + V.psize v := decide_eq_true_iff

def used (V : View) (v : Nat) : List Nat := V.taken.filter (V.inPool v)

def slots (V : View) (v : Nat) : List Nat := V.free v ++ V.used v

/-- The slots of a pool that `slb_alloc_align` handed out. -/
def count (V : View) (v : Nat) : Nat :=
  V.taken.countP fun p => V.inPool v p && decide (p ≠ V.first)

/-- Another free list for one pool, and another list of handed-out slots. -/
def reslot (V : View) (v : Nat) (free taken : List Nat) : View :=
  { V with free := Function.update V.free v free, taken := taken }

def addSlab (V : View) (d align osize : Nat) : View :=
  { V with
    slabs := d :: V.slabs
    pools := Function.update V.pools d []
    align := Function.update V.align d align
    osize := Function.update V.osize d osize }

/-- A new pool at the head of a descriptor's list. -/
def addPool (V : View) (d v psize : Nat) (slots : List Nat) : View :=
  { V with
    pools := Function.update V.pools d (v :: V.pools d)
    free := Function.update V.free v slots
    psize := Function.update V.psize v psize }

theorem mem_used {V : View} {v p : Nat} :
    p ∈ V.used v ↔ p ∈ V.taken ∧ v ≤ p ∧ p < v + V.psize v := by
  simp [used]

theorem mem_slots {V : View} {v p : Nat} : p ∈ V.slots v ↔ p ∈ V.free v ∨ p ∈ V.used v :=
  List.mem_append

end View

structure KeyOk (align osize : Nat) : Prop where
  size_pos : 4 ≤ osize
  small : 10 * osize + 26 ≤ 4294963200
  align_ok : AlignOk align
  align_ne : align ≠ 0

/-- Where one pool and its slots lie; `F` is the set of free bytes. -/
structure PoolOk (V : View) (F : Set Nat) (d v : Nat) : Prop where
  lo : 2155872256 ≤ v
  hi : v + V.psize v ≤ 2667577344
  room : 16 ≤ V.psize v
  fresh : ∀ b, v ≤ b → b < v + V.psize v → b ∉ F
  inside : ∀ p ∈ V.slots v, v + 16 ≤ p ∧ p + V.osize d ≤ v + V.psize v
  aligned : ∀ p ∈ V.slots v, p &&& (V.align d - 1) = 0
  apart : (V.slots v).Pairwise fun p q => p + V.osize d ≤ q ∨ q + V.osize d ≤ p

theorem PoolOk.congr {V V' : View} {F F' : Set Nat} {d v : Nat} (h : PoolOk V F d v) (hF : F' ⊆ F)
    (hps : V'.psize v = V.psize v) (hslots : V'.slots v = V.slots v)
    (hos : V'.osize d = V.osize d) (hal : V'.align d = V.align d) : PoolOk V' F' d v where
  lo := h.lo
  hi := by
    rw [hps]
    exact h.hi
  room := by
    rw [hps]
    exact h.room
  fresh b h₁ h₂ hb := h.fresh b h₁ (hps ▸ h₂) (hF hb)
  inside := by
    rw [hps, hslots, hos]
    exact h.inside
  aligned := by
    rw [hslots, hal]
    exact h.aligned
  apart := by
    rw [hslots, hos]
    exact h.apart

structure Layout (V : View) (F : Set Nat) : Prop where
  key_ok : ∀ d ∈ V.slabs, KeyOk (V.align d) (V.osize d)
  keys : ∀ d ∈ V.slabs, ∀ e ∈ V.slabs, V.align d = V.align e → V.osize d = V.osize e → d = e
  pool_ok : ∀ d v, V.Pool d v → PoolOk V F d v
  pools_apart : ∀ d v e w, V.Pool d v → V.Pool e w → v ≠ w →
    v + V.psize v ≤ w ∨ w + V.psize w ≤ v
  owner : ∀ d e v, V.Pool d v → V.Pool e v → d = e
  first_mem : V.first ∈ V.slabs
  first_key : V.align V.first = 4 ∧ V.osize V.first = 16
  taken_nodup : V.taken.Nodup
  taken_pool : ∀ p ∈ V.taken, ∃ d v, V.Pool d v ∧ v ≤ p ∧ p < v + V.psize v
  descriptor : ∀ d ∈ V.slabs, d ∈ V.taken ∧
    ∃ v ∈ V.pools V.first, v ≤ d ∧ d < v + V.psize v

namespace Layout

variable {V : View} {F : Set Nat}

theorem slot_apart (h : Layout V F) {d v e w p q : Nat} (hv : V.Pool d v) (hw : V.Pool e w)
    (hp : p ∈ V.slots v) (hq : q ∈ V.slots w) (hne : p ≠ q) :
    p + V.osize d ≤ q ∨ q + V.osize e ≤ p := by
  by_cases hvw : v = w
  · subst hvw
    obtain rfl := h.owner d e v hv hw
    have hsymm : Std.Symm fun p q => p + V.osize d ≤ q ∨ q + V.osize d ≤ p := ⟨fun _ _ => Or.symm⟩
    exact (h.pool_ok d v hv).apart.forall hp hq hne
  · have h₁ := (h.pool_ok d v hv).inside p hp
    have h₂ := (h.pool_ok e w hw).inside q hq
    have h₃ := h.pools_apart d v e w hv hw hvw
    omega

theorem header_slot_apart (h : Layout V F) {d v e w q : Nat} (hv : V.Pool d v) (hw : V.Pool e w)
    (hq : q ∈ V.slots w) : v + 16 ≤ q ∨ q + V.osize e ≤ v := by
  have h₂ := (h.pool_ok e w hw).inside q hq
  by_cases hvw : v = w
  · omega
  · have h₃ := h.pools_apart d v e w hv hw hvw
    have h₄ := (h.pool_ok d v hv).room
    omega

theorem header_apart (h : Layout V F) {d v e w : Nat} (hv : V.Pool d v) (hw : V.Pool e w)
    (hne : v ≠ w) : v + 16 ≤ w ∨ w + 16 ≤ v := by
  have h₁ := h.pools_apart d v e w hv hw hne
  have h₂ := (h.pool_ok d v hv).room
  have h₃ := (h.pool_ok e w hw).room
  omega

theorem pool_unique (h : Layout V F) {d v e w p : Nat} (hv : V.Pool d v) (hw : V.Pool e w)
    (hp : v ≤ p ∧ p < v + V.psize v) (hq : w ≤ p ∧ p < w + V.psize w) : v = w := by
  by_contra hne
  have := h.pools_apart d v e w hv hw hne
  omega

theorem descriptor_slot (h : Layout V F) {d : Nat} (hd : d ∈ V.slabs) :
    ∃ v, V.Pool V.first v ∧ d ∈ V.slots v := by
  obtain ⟨ht, v, hv, hin⟩ := h.descriptor d hd
  exact ⟨v, ⟨h.first_mem, hv⟩, View.mem_slots.2 (Or.inr (View.mem_used.2 ⟨ht, hin⟩))⟩

theorem descriptor_header_apart (h : Layout V F) {d e v : Nat} (hd : d ∈ V.slabs)
    (hv : V.Pool e v) : v + 16 ≤ d ∨ d + 16 ≤ v := by
  obtain ⟨w, hw, hdw⟩ := h.descriptor_slot hd
  have := h.header_slot_apart hv hw hdw
  rwa [h.first_key.2] at this

theorem descriptor_slot_apart (h : Layout V F) {d e w p : Nat} (hd : d ∈ V.slabs)
    (hw : V.Pool e w) (hp : p ∈ V.slots w) (hne : p ≠ d) : p + V.osize e ≤ d ∨ d + 16 ≤ p := by
  obtain ⟨v, hv, hdv⟩ := h.descriptor_slot hd
  have := h.slot_apart hw hv hp hdv hne
  rwa [h.first_key.2] at this

theorem descriptor_apart (h : Layout V F) {d e : Nat} (hd : d ∈ V.slabs) (he : e ∈ V.slabs)
    (hne : d ≠ e) : d + 16 ≤ e ∨ e + 16 ≤ d := by
  obtain ⟨v, hv, hdv⟩ := h.descriptor_slot hd
  have := h.descriptor_slot_apart he hv hdv hne
  rwa [h.first_key.2] at this

/-- The free slots of a pool are different from each other and from the slots handed out. -/
theorem slots_nodup (h : Layout V F) {d v : Nat} (hv : V.Pool d v) : (V.slots v).Nodup := by
  have hpos := (h.key_ok d hv.1).size_pos
  exact (h.pool_ok d v hv).apart.imp fun hpq => by omega

theorem free_not_taken (h : Layout V F) {d v p : Nat} (hv : V.Pool d v) (hp : p ∈ V.free v) :
    p ∉ V.taken := by
  intro ht
  have hin := (h.pool_ok d v hv).inside p (View.mem_slots.2 (Or.inl hp))
  have hpos := (h.key_ok d hv.1).size_pos
  have hused : p ∈ V.used v := View.mem_used.2 ⟨ht, by omega, by omega⟩
  exact (List.nodup_append.1 (h.slots_nodup hv)).2.2 p hp p hused rfl

theorem slot_bounds (h : Layout V F) {d v p : Nat} (hv : V.Pool d v) (hp : p ∈ V.slots v) :
    2155872272 ≤ p ∧ p + V.osize d ≤ 2667577344 := by
  have h₁ := h.pool_ok d v hv
  have h₂ := h₁.inside p hp
  have h₃ := h₁.lo
  have h₄ := h₁.hi
  omega

theorem count_le (h : Layout V F) (v : Nat) : V.count v ≤ 2667577344 := by
  have hlt : ∀ p ∈ V.taken, p < 2667577344 := by
    intro p hp
    obtain ⟨d, w, hw, -, hin⟩ := h.taken_pool p hp
    have := (h.pool_ok d w hw).hi
    omega
  exact List.countP_le_length.trans (nodup_length_le h.taken_nodup hlt)

/-! ## Handing slots out and taking them back -/

theorem reslot (h : Layout V F) {v : Nat} {free taken : List Nat} (hn : taken.Nodup)
    (hslots : ∀ d w, V.Pool d w → ((V.reslot v free taken).slots w).Perm (V.slots w))
    (htaken : ∀ p ∈ taken, ∃ d w, V.Pool d w ∧ w ≤ p ∧ p < w + V.psize w)
    (hdesc : ∀ d ∈ V.slabs, d ∈ taken) : Layout (V.reslot v free taken) F where
  key_ok := h.key_ok
  keys := h.keys
  pool_ok d w hw := by
    have hok := h.pool_ok d w hw
    have hperm := hslots d w hw
    exact
      { lo := hok.lo
        hi := hok.hi
        room := hok.room
        fresh := hok.fresh
        inside := fun p hp => hok.inside p (hperm.mem_iff.1 hp)
        aligned := fun p hp => hok.aligned p (hperm.mem_iff.1 hp)
        apart := (hperm.pairwise_iff Or.symm).2 hok.apart }
  pools_apart := h.pools_apart
  owner := h.owner
  first_mem := h.first_mem
  first_key := h.first_key
  taken_nodup := hn
  taken_pool := htaken
  descriptor d hd := ⟨hdesc d hd, (h.descriptor d hd).2⟩

theorem take (h : Layout V F) {d v p : Nat} {rest : List Nat} (hv : V.Pool d v)
    (hfree : V.free v = p :: rest) : Layout (V.reslot v rest (p :: V.taken)) F := by
  have hpf : p ∈ V.free v := by simp [hfree]
  have hin := (h.pool_ok d v hv).inside p (View.mem_slots.2 (Or.inl hpf))
  have hpos := (h.key_ok d hv.1).size_pos
  have hpv : v ≤ p ∧ p < v + V.psize v := by omega
  refine h.reslot (List.nodup_cons.2 ⟨h.free_not_taken hv hpf, h.taken_nodup⟩) ?_ ?_ ?_
  · intro e w hw
    by_cases hvw : w = v
    · subst hvw
      have hused : (V.reslot w rest (p :: V.taken)).used w = p :: V.used w :=
        List.filter_cons_of_pos (View.inPool_iff.2 hpv)
      unfold View.slots
      rw [hused, hfree]
      simp only [View.reslot, Function.update_self, List.cons_append]
      exact List.perm_middle
    · have hnot : ¬ (V.inPool w p = true) := fun hc =>
        hvw (h.pool_unique hw hv (View.inPool_iff.1 hc) hpv)
      have hused : (V.reslot v rest (p :: V.taken)).used w = V.used w :=
        List.filter_cons_of_neg hnot
      unfold View.slots
      rw [hused]
      simp only [View.reslot, Function.update_of_ne hvw]
      exact List.Perm.refl _
  · intro q hq
    rcases List.mem_cons.1 hq with rfl | hq
    · exact ⟨d, v, hv, hpv⟩
    · exact h.taken_pool q hq
  · exact fun e he => List.mem_cons_of_mem _ (h.descriptor e he).1

theorem put (h : Layout V F) {d v p : Nat} (hv : V.Pool d v) (hp : p ∈ V.used v)
    (hnd : p ∉ V.slabs) : Layout (V.reslot v (p :: V.free v) (V.taken.erase p)) F := by
  obtain ⟨ht, hpv⟩ := View.mem_used.1 hp
  have hperm := List.perm_cons_erase ht
  refine h.reslot (h.taken_nodup.erase p) ?_ ?_ ?_
  · intro e w hw
    have hfilter := hperm.filter (V.inPool w)
    by_cases hvw : w = v
    · subst hvw
      rw [List.filter_cons_of_pos (View.inPool_iff.2 hpv)] at hfilter
      unfold View.slots
      simp only [View.reslot, Function.update_self]
      exact List.perm_middle.symm.trans (List.Perm.append_left _ hfilter.symm)
    · have hnot : ¬ (V.inPool w p = true) := fun hc =>
        hvw (h.pool_unique hw hv (View.inPool_iff.1 hc) hpv)
      rw [List.filter_cons_of_neg hnot] at hfilter
      unfold View.slots
      simp only [View.reslot, Function.update_of_ne hvw]
      exact List.Perm.append_left _ hfilter.symm
  · exact fun q hq => h.taken_pool q (List.mem_of_mem_erase hq)
  · intro e he
    have hne : e ≠ p := fun hc => hnd (hc ▸ he)
    exact (List.mem_erase_of_ne hne).2 (h.descriptor e he).1

/-! ## New descriptors and pools -/

theorem addSlab_pool {d align osize e w : Nat} :
    (V.addSlab d align osize).Pool e w ↔ e ≠ d ∧ V.Pool e w := by
  unfold View.Pool View.addSlab
  by_cases hed : e = d
  · subst hed
    simp
  · simp [hed]

theorem addSlab (h : Layout V F) {d align osize : Nat} (hkey : KeyOk align osize)
    (hnew : ∀ e ∈ V.slabs, V.align e = align → V.osize e ≠ osize) (hd : d ∈ V.taken)
    (hds : d ∉ V.slabs) (hpool : ∃ v ∈ V.pools V.first, v ≤ d ∧ d < v + V.psize v) :
    Layout (V.addSlab d align osize) F := by
  have hne : ∀ e ∈ V.slabs, e ≠ d := fun e he hc => hds (hc ▸ he)
  have hal : ∀ e, e ≠ d → (V.addSlab d align osize).align e = V.align e := fun e he =>
    Function.update_of_ne he _ _
  have hos : ∀ e, e ≠ d → (V.addSlab d align osize).osize e = V.osize e := fun e he =>
    Function.update_of_ne he _ _
  have hald : (V.addSlab d align osize).align d = align := Function.update_self _ _ _
  have hosd : (V.addSlab d align osize).osize d = osize := Function.update_self _ _ _
  have hfirst := hne V.first h.first_mem
  refine ⟨?_, ?_, ?_, ?_, ?_, ?_, ?_, h.taken_nodup, ?_, ?_⟩
  · intro e he
    rcases List.mem_cons.1 he with rfl | he
    · rw [hald, hosd]
      exact hkey
    · rw [hal e (hne e he), hos e (hne e he)]
      exact h.key_ok e he
  · intro e he e' he' h₁ h₂
    rcases List.mem_cons.1 he with hd₁ | hs₁
    · rcases List.mem_cons.1 he' with hd₂ | hs₂
      · exact hd₁.trans hd₂.symm
      · rw [hd₁, hald, hal e' (hne e' hs₂)] at h₁
        rw [hd₁, hosd, hos e' (hne e' hs₂)] at h₂
        exact absurd h₂.symm (hnew e' hs₂ h₁.symm)
    · rcases List.mem_cons.1 he' with hd₂ | hs₂
      · rw [hd₂, hald, hal e (hne e hs₁)] at h₁
        rw [hd₂, hosd, hos e (hne e hs₁)] at h₂
        exact absurd h₂ (hnew e hs₁ h₁)
      · rw [hal e (hne e hs₁), hal e' (hne e' hs₂)] at h₁
        rw [hos e (hne e hs₁), hos e' (hne e' hs₂)] at h₂
        exact h.keys e hs₁ e' hs₂ h₁ h₂
  · intro e w hw
    obtain ⟨hed, hw⟩ := addSlab_pool.1 hw
    exact (h.pool_ok e w hw).congr Set.Subset.rfl rfl rfl (hos e hed) (hal e hed)
  · intro e v e' w hv hw
    exact h.pools_apart e v e' w (addSlab_pool.1 hv).2 (addSlab_pool.1 hw).2
  · intro e e' v hv hw
    exact h.owner e e' v (addSlab_pool.1 hv).2 (addSlab_pool.1 hw).2
  · exact List.mem_cons_of_mem _ h.first_mem
  · exact ⟨(hal V.first hfirst).trans h.first_key.1, (hos V.first hfirst).trans h.first_key.2⟩
  · intro p hp
    obtain ⟨e, w, hw, hin⟩ := h.taken_pool p hp
    exact ⟨e, w, addSlab_pool.2 ⟨hne e hw.1, hw⟩, hin⟩
  · have hpools : (V.addSlab d align osize).pools V.first = V.pools V.first :=
      Function.update_of_ne hfirst _ _
    intro e he
    show e ∈ V.taken ∧ ∃ v ∈ (V.addSlab d align osize).pools V.first, _
    rw [hpools]
    rcases List.mem_cons.1 he with rfl | he
    · exact ⟨hd, hpool⟩
    · exact h.descriptor e he

theorem addPool_pool {d v psize : Nat} {slots : List Nat} (hd : d ∈ V.slabs) {e w : Nat} :
    (V.addPool d v psize slots).Pool e w ↔ e = d ∧ w = v ∨ V.Pool e w := by
  unfold View.Pool View.addPool
  by_cases hed : e = d
  · subst hed
    simp only [Function.update_self, List.mem_cons, hd, true_and]
  · simp [hed]

/-- A pool on bytes that were free lies apart from every pool there was. -/
theorem fresh_apart (h : Layout V F) {v psize e w : Nat} (hpos : 0 < psize)
    (hfree : ∀ b, v ≤ b → b < v + psize → b ∈ F) (hw : V.Pool e w) :
    v + psize ≤ w ∨ w + V.psize w ≤ v := by
  have hok := h.pool_ok e w hw
  have hroom := hok.room
  by_contra hmeet
  refine hok.fresh (max v w) (Nat.le_max_right v w) (by omega) ?_
  exact hfree (max v w) (Nat.le_max_left v w) (by omega)

theorem addPool (h : Layout V F) {F' : Set Nat} {d v psize : Nat} {slots : List Nat}
    (hd : d ∈ V.slabs) (hF : F' ⊆ F) (hpos : 0 < psize)
    (hfree : ∀ b, v ≤ b → b < v + psize → b ∈ F)
    (hok : PoolOk (V.addPool d v psize slots) F' d v) : Layout (V.addPool d v psize slots) F' := by
  have hne : ∀ e w, V.Pool e w → w ≠ v := by
    intro e w hw hwv
    have h₁ := h.fresh_apart hpos hfree hw
    have h₂ := (h.pool_ok e w hw).room
    omega
  have hps : ∀ e w, V.Pool e w → (V.addPool d v psize slots).psize w = V.psize w := fun e w hw =>
    Function.update_of_ne (hne e w hw) _ _
  have hpsv : (V.addPool d v psize slots).psize v = psize := Function.update_self _ _ _
  have hpools : ∀ e, V.pools e ⊆ (V.addPool d v psize slots).pools e := by
    intro e w hw
    by_cases hed : e = d
    · subst hed
      simp only [View.addPool, Function.update_self]
      exact List.mem_cons_of_mem _ hw
    · simpa only [View.addPool, Function.update_of_ne hed] using hw
  refine ⟨h.key_ok, h.keys, ?_, ?_, ?_, h.first_mem, h.first_key, h.taken_nodup, ?_, ?_⟩
  · intro e w hw
    rcases (addPool_pool hd).1 hw with ⟨rfl, rfl⟩ | hw
    · exact hok
    · refine (h.pool_ok e w hw).congr hF (hps e w hw) ?_ rfl rfl
      have hpred : (V.addPool d v psize slots).inPool w = V.inPool w := by
        funext p
        unfold View.inPool
        rw [hps e w hw]
      unfold View.slots View.used
      rw [hpred]
      simp only [View.addPool, Function.update_of_ne (hne e w hw)]
  · intro e w e' w' hw hw' hww
    rcases (addPool_pool hd).1 hw with hv₁ | hp₁
    · rcases (addPool_pool hd).1 hw' with hv₂ | hp₂
      · exact absurd (hv₁.2.trans hv₂.2.symm) hww
      · rw [hv₁.2, hpsv, hps e' w' hp₂]
        exact h.fresh_apart hpos hfree hp₂
    · rcases (addPool_pool hd).1 hw' with hv₂ | hp₂
      · rw [hv₂.2, hpsv, hps e w hp₁]
        exact (h.fresh_apart hpos hfree hp₁).symm
      · rw [hps e w hp₁, hps e' w' hp₂]
        exact h.pools_apart e w e' w' hp₁ hp₂ hww
  · intro e e' w hw hw'
    rcases (addPool_pool hd).1 hw with hv₁ | hp₁
    · rcases (addPool_pool hd).1 hw' with hv₂ | hp₂
      · exact hv₁.1.trans hv₂.1.symm
      · exact absurd hv₁.2 (hne e' w hp₂)
    · rcases (addPool_pool hd).1 hw' with hv₂ | hp₂
      · exact absurd hv₂.2 (hne e w hp₁)
      · exact h.owner e e' w hp₁ hp₂
  · intro p hp
    obtain ⟨e, w, hw, hin⟩ := h.taken_pool p hp
    refine ⟨e, w, (addPool_pool hd).2 (Or.inr hw), ?_⟩
    rw [hps e w hw]
    exact hin
  · intro e he
    obtain ⟨ht, w, hw, hin⟩ := h.descriptor e he
    refine ⟨ht, w, hpools _ hw, ?_⟩
    rw [hps V.first w ⟨h.first_mem, hw⟩]
    exact hin

theorem addPool_made (h : Layout V F) {s s' : State} {l l' : List Extent} {d v : Nat}
    {slots : List Nat} (hd : d ∈ V.slabs) (hF : F = virt (covered l))
    (hm : PoolMade s l (V.osize d) (V.align d) v s' l' slots) :
    Layout (V.addPool d v (poolBytes (V.osize d)) slots) (virt (covered l')) := by
  have hkey := h.key_ok d hd
  obtain ⟨-, hbytes, -⟩ := poolBytes_spec hkey.small
  have hfree : ∀ b, v ≤ b → b < v + poolBytes (V.osize d) → b ∈ F := hF ▸ hm.wasFree
  have hsub : virt (covered l') ⊆ F := by
    rw [hF, hm.taken]
    exact virt_mono Set.sdiff_subset
  have hused : (V.addPool d v (poolBytes (V.osize d)) slots).used v = [] := by
    refine List.filter_eq_nil_iff.2 fun p hp hin => ?_
    rw [View.inPool_iff] at hin
    simp only [View.addPool, Function.update_self] at hin
    obtain ⟨e, w, hw, hpw⟩ := h.taken_pool p hp
    exact (h.pool_ok e w hw).fresh p hpw.1 hpw.2 (hfree p hin.1 hin.2)
  have hslots : (V.addPool d v (poolBytes (V.osize d)) slots).slots v = slots := by
    unfold View.slots
    rw [hused, List.append_nil]
    exact Function.update_self _ _ _
  have hps : (V.addPool d v (poolBytes (V.osize d)) slots).psize v = poolBytes (V.osize d) :=
    Function.update_self _ _ _
  have hstart := (segmStart_spec hm.start_aligned hkey.align_ok).1
  refine h.addPool hd hsub (by omega) hfree ⟨hm.lo, ?_, ?_, ?_, ?_, ?_, ?_⟩
  · rw [hps]
    exact hm.hi
  · rw [hps]
    omega
  · intro b h₁ h₂ hb
    rw [hps] at h₂
    have hlo := hm.lo
    rw [hm.taken] at hb
    refine hb.2.2 ?_
    unfold KERNEL_BASE
    rw [Set.mem_Ico]
    omega
  · intro p hp
    rw [hslots] at hp
    have := hm.carved.inside p hp
    rw [hps]
    show _ ∧ p + V.osize d ≤ _
    omega
  · intro p hp
    rw [hslots] at hp
    exact (hm.carved.aligned p hp).resolve_left hkey.align_ne
  · rw [hslots]
    exact hm.carved.apart.imp fun hpq => Or.inr hpq

end Layout

end Aimv6.Mm
