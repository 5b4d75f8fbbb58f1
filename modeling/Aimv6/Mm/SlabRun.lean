import Aimv6.Mm.SlabFree
import Aimv6.Mm.PagesRun

/-! # Runs of the slab allocator

Clients take objects with `slb_alloc_align`, return them with `slb_free_align`,
and store into the objects they hold. Along every such run the memory holds one
view whose handed-out slots are the live objects and the descriptors.
-/

namespace Aimv6.Mm

open Support

/-- An object handed out for a request. -/
structure Obj where
  ptr : Nat
  size : Nat
  align : Nat
deriving DecidableEq, Repr

/-- The requests for which no computation of the allocator wraps. -/
def Request (size align : Nat) : Prop :=
  1 ≤ size ∧ (10 * size + 26 + 4095) / 4096 * 4096 < 4294967296 ∧
    (align = 0 ∨ ∃ k, k ≤ 30 ∧ align = 2 ^ k)

instance (size align : Nat) : Decidable (Request size align) :=
  inferInstanceAs (Decidable (_ ∧ _ ∧ (_ ∨ ∃ k, k ≤ 30 ∧ align = 2 ^ k)))

inductive SlabEvent where
  /-- `slb_alloc_align(size, align)` -/
  | alloc (size align : Nat)
  /-- `slb_free_align(o.ptr, o.size, o.align)`, for a live object -/
  | free (o : Obj)
  /-- a store by a client into a live object -/
  | write (a : Nat) (v : UInt8)

/-- The allocator and the objects handed out and not yet put back. -/
structure SlabSystem where
  st : State
  live : List Obj

namespace SlabSystem

instance (a : Nat) (live : List Obj) :
    Decidable (∃ o ∈ live, o.ptr ≤ a ∧ a < o.ptr + o.size) :=
  inferInstanceAs (Decidable (∃ o ∈ live, _))

/-- A run does not go on behind a request that was answered with `NULL`. -/
def step (S : SlabSystem) : SlabEvent → Option SlabSystem
  | .alloc size align =>
      if Request size align then
        (slbAllocAlign S.st size align).toOption.bind fun r =>
          r.1.map fun p => ⟨r.2, ⟨p, size, align⟩ :: S.live⟩
      else none
  | .free o =>
      if o ∈ S.live then
        (slbFreeAlign S.st o.ptr o.size o.align).toOption.map fun r =>
          ⟨r.2, if r.1 = 0 then S.live.erase o else S.live⟩
      else none
  | .write a v =>
      if ∃ o ∈ S.live, o.ptr ≤ a ∧ a < o.ptr + o.size then
        some { S with st := { S.st with mem := store8 S.st.mem a v } }
      else none

/-- `slb_init()` on a fresh page allocator. -/
def init (s : State) : Option SlabSystem :=
  (PagesSystem.init s).bind fun P =>
    (slbInit P.st).toOption.bind fun r => if r.1 = 0 then some ⟨r.2, []⟩ else none

/-- What holds of the objects, the linked structure `V` and the free pages `l` in memory. -/
structure Safe (S : SlabSystem) (V : View) (l : List Extent) : Prop where
  /-- the links from `slb_head` lead to the descriptors, pools and free slots of `V` -/
  stored : Stored S.st V
  pages : Represents S.st l
  live_apart : S.live.Pairwise fun o o' => o.ptr + o.size ≤ o'.ptr ∨ o'.ptr + o'.size ≤ o.ptr
  pools_apart : ∀ d v e w, V.Pool d v → V.Pool e w → v ≠ w →
    v + S.st.poolSize v ≤ w ∨ w + S.st.poolSize w ≤ v
  in_pool : ∀ o ∈ S.live, ∃ d v, V.Pool d v ∧ v + 16 ≤ o.ptr ∧
    o.ptr + o.size ≤ v + S.st.poolSize v
  aligned : ∀ o ∈ S.live, o.align ≠ 0 → o.align ∣ o.ptr
  descriptors : ∀ o ∈ S.live, ∀ d ∈ V.slabs, o.ptr + o.size ≤ d ∨ d + 16 ≤ o.ptr
  headers : ∀ o ∈ S.live, ∀ d v, V.Pool d v → o.ptr + o.size ≤ v ∨ v + 16 ≤ o.ptr
  free_pages : ∀ o ∈ S.live, ∀ e ∈ l, o.ptr + o.size ≤ P2V e.start ∨ P2V e.start + e.size ≤ o.ptr
  free_once : ∀ d v, V.Pool d v → (V.free v).Nodup
  free_apart : ∀ d v e w, V.Pool d v → V.Pool e w → v ≠ w → ∀ p ∈ V.free v, p ∉ V.free w
  free_not_live : ∀ d v, V.Pool d v → ∀ p ∈ V.free v, ∀ o ∈ S.live,
    p + V.osize d ≤ o.ptr ∨ o.ptr + o.size ≤ p
  /-- the descriptor that `slb_init` takes is the last of the list -/
  counted : ∀ d v, V.Pool d v → S.st.cntInuse v =
    (S.live.map Obj.ptr ++ V.slabs.dropLast).countP
      fun p => decide (v ≤ p ∧ p < v + S.st.poolSize v)

/-- The slots handed out are the live objects and the descriptors. -/
structure Inv (S : SlabSystem) (V : View) (l : List Extent) : Prop where
  slab : SlabInv S.st V l
  taken : V.taken.Perm (S.live.map Obj.ptr ++ V.slabs)
  holds : ∀ o ∈ S.live, Request o.size o.align ∧ V.Holds o.size o.align o.ptr
  last : V.slabs.getLast? = some V.first

end SlabSystem

/-! ## Requests -/

theorem Request.size_lt {size align : Nat} (h : Request size align) :
    10 * size + 26 ≤ 4294963200 := by
  have := h.2.1
  omega

theorem Request.keySize_eq {size align : Nat} (h : Request size align) :
    keySize size = max size 4 := by
  have := h.size_lt
  exact maxInt_four (by omega)

theorem Request.keyOk {size align : Nat} (h : Request size align) :
    KeyOk (keyAlign size align) (keySize size) := by
  have hsize := h.size_lt
  have hpos := h.1
  rw [h.keySize_eq]
  refine ⟨by omega, by omega, ?_, ?_⟩
  · unfold keyAlign
    rcases h.2.2 with hz | hk
    · rw [if_pos hz, minInt_four (by omega)]
      have hcases : min size 4 = 1 ∨ min size 4 = 2 ∨ min size 4 = 3 ∨ min size 4 = 4 := by omega
      rcases hcases with hm | hm | hm | hm
      · exact Or.inr (Or.inr ⟨0, by decide, hm⟩)
      · exact Or.inr (Or.inr ⟨1, by decide, hm⟩)
      · exact Or.inr (Or.inl hm)
      · exact Or.inr (Or.inr ⟨2, by decide, hm⟩)
    · obtain ⟨k, hk, rfl⟩ := hk
      rw [if_neg (Nat.pos_iff_ne_zero.1 (Nat.two_pow_pos k))]
      exact Or.inr (Or.inr ⟨k, hk, rfl⟩)
  · unfold keyAlign
    by_cases hz : align = 0
    · rw [if_pos hz, minInt_four (by omega)]
      omega
    · rw [if_neg hz]
      exact hz

/-- Alignments up to 2048, or up to the size, leave room for a slot in every new pool. -/
theorem Request.roomy {size align : Nat} (h : Request size align) (ha : align ≤ max 2048 size) :
    Roomy (keySize size) (keyAlign size align) := by
  have hsize := h.size_lt
  obtain ⟨hmod, hle, -⟩ := poolBytes_spec h.keyOk.small
  have hal : keyAlign size align ≤ max 2048 size := by
    unfold keyAlign
    by_cases hz : align = 0
    · rw [if_pos hz, minInt_four (by omega)]
      omega
    · rw [if_neg hz]
      exact ha
  have hks := h.keySize_eq
  unfold Roomy
  omega

namespace SlabSystem

variable {S S' : SlabSystem} {V : View} {l : List Extent}

theorem Inv.object (h : S.Inv V l) {o : Obj} (ho : o ∈ S.live) :
    ∃ d v, V.Pool d v ∧ V.align d = keyAlign o.size o.align ∧ V.osize d = keySize o.size ∧
      o.ptr ∈ V.used v ∧ o.ptr ∉ V.slabs ∧ o.size ≤ V.osize d := by
  obtain ⟨hreq, d, v, hv, hal, hos, hin⟩ := h.holds o ho
  have hmem : o.ptr ∈ S.live.map Obj.ptr := List.mem_map_of_mem ho
  have htaken : o.ptr ∈ V.taken := h.taken.mem_iff.2 (List.mem_append_left _ hmem)
  have hnodup := h.taken.nodup_iff.1 h.slab.layout.taken_nodup
  refine ⟨d, v, hv, hal, hos, View.mem_used.2 ⟨htaken, hin⟩, fun hc => ?_, ?_⟩
  · exact (List.nodup_append.1 hnodup).2.2 o.ptr hmem o.ptr hc rfl
  · rw [hos, hreq.keySize_eq]
    omega

theorem Inv.slabs_eq (h : S.Inv V l) : V.slabs = V.slabs.dropLast ++ [V.first] :=
  (List.dropLast_append_getLast? V.first h.last).symm

theorem Inv.count_eq (h : S.Inv V l) (v : Nat) : V.count v =
    (S.live.map Obj.ptr ++ V.slabs.dropLast).countP (fun p => decide (v ≤ p ∧ p < v + V.psize v)) := by
  have hperm := h.taken
  rw [h.slabs_eq, ← List.append_assoc] at hperm
  have hnodup := hperm.nodup_iff.1 h.slab.layout.taken_nodup
  have hfirst := (List.nodup_append.1 hnodup).2.2
  unfold View.count
  rw [hperm.countP_eq, List.countP_append, List.countP_singleton]
  have hlast : (V.inPool v V.first && decide (V.first ≠ V.first)) = false := by simp
  rw [hlast, if_neg (by decide), Nat.add_zero]
  refine List.countP_congr fun p hp => ?_
  have hne : p ≠ V.first := hfirst p hp V.first (List.mem_singleton.2 rfl)
  simp [View.inPool, hne]

theorem Inv.safe (h : S.Inv V l) : S.Safe V l := by
  have hL := h.slab.layout
  have hsize : ∀ d v, V.Pool d v → S.st.poolSize v = V.psize v := fun d v hv =>
    (h.slab.stored.pool d v hv).size
  have hnodup := h.taken.nodup_iff.1 hL.taken_nodup
  refine ⟨h.slab.stored, h.slab.represents, ?_, ?_, ?_, ?_, ?_, ?_, ?_, ?_, ?_, ?_, ?_⟩
  · have hne : S.live.Pairwise fun o o' => o.ptr ≠ o'.ptr :=
      List.pairwise_map.1 (List.nodup_append.1 hnodup).1
    refine hne.imp_of_mem fun {o o'} ho ho' hptr => ?_
    obtain ⟨d, v, hv, -, -, hu, -, hle⟩ := h.object ho
    obtain ⟨e, w, hw, -, -, hu', -, hle'⟩ := h.object ho'
    have := hL.slot_apart hv hw (View.mem_slots.2 (Or.inr hu)) (View.mem_slots.2 (Or.inr hu')) hptr
    omega
  · intro d v e w hv hw hne
    rw [hsize d v hv, hsize e w hw]
    exact hL.pools_apart d v e w hv hw hne
  · intro o ho
    obtain ⟨d, v, hv, -, -, hu, -, hle⟩ := h.object ho
    have := (hL.pool_ok d v hv).inside o.ptr (View.mem_slots.2 (Or.inr hu))
    refine ⟨d, v, hv, by omega, ?_⟩
    rw [hsize d v hv]
    omega
  · intro o ho hne
    obtain ⟨d, v, hv, hal, -, hu, -, -⟩ := h.object ho
    have hand := (hL.pool_ok d v hv).aligned o.ptr (View.mem_slots.2 (Or.inr hu))
    rw [hal, keyAlign_ne _ hne] at hand
    obtain ⟨k, -, hk⟩ := (h.holds o ho).1.2.2.resolve_left hne
    rw [hk, Nat.and_two_pow_sub_one_eq_mod] at hand
    rw [hk]
    exact Nat.dvd_of_mod_eq_zero hand
  · intro o ho d hd
    obtain ⟨e, v, hv, -, -, hu, hnd, hle⟩ := h.object ho
    have hne : o.ptr ≠ d := fun hc => hnd (hc ▸ hd)
    have := hL.descriptor_slot_apart hd hv (View.mem_slots.2 (Or.inr hu)) hne
    omega
  · intro o ho d v hv
    obtain ⟨e, w, hw, -, -, hu, -, hle⟩ := h.object ho
    have := hL.header_slot_apart hv hw (View.mem_slots.2 (Or.inr hu))
    omega
  · intro o ho e he
    obtain ⟨d, v, hv, -, -, hu, -, hle⟩ := h.object ho
    have hok := hL.pool_ok d v hv
    have hin := hok.inside o.ptr (View.mem_slots.2 (Or.inr hu))
    have hpe := h.slab.represents.paged e he
    have hhi := hpe.hi
    have hpos := h.slab.represents.separated.pos e he
    have hreq := (h.holds o ho).1.1
    unfold Extent.fin at hhi
    rw [P2V_of_lt (by omega)]
    by_contra hmeet
    refine hok.fresh (max o.ptr (e.start + 2147483648)) (by omega) (by omega)
      ⟨by unfold KERNEL_BASE; omega, e, he, ?_⟩
    rw [Extent.mem_bytes, KERNEL_BASE, Extent.fin]
    omega
  · exact fun d v hv => (List.nodup_append.1 (hL.slots_nodup hv)).1
  · intro d v e w hv hw hne p hp hp'
    have h₁ := hL.free_inPool hv hp
    have h₂ := hL.free_inPool hw hp'
    exact hne (hL.pool_unique hv hw h₁ h₂)
  · intro d v hv p hp o ho
    obtain ⟨e, w, hw, -, -, hu, -, hle⟩ := h.object ho
    have hne : p ≠ o.ptr := fun hc => hL.free_not_taken hv hp (hc ▸ (View.mem_used.1 hu).1)
    have := hL.slot_apart hv hw (View.mem_slots.2 (Or.inl hp)) (View.mem_slots.2 (Or.inr hu)) hne
    omega
  · intro d v hv
    rw [(h.slab.stored.pool d v hv).cnt, hsize d v hv]
    exact h.count_eq v

/-! ## Steps -/

/-- A request that is answered with an object adds it to the live ones. -/
theorem Inv.alloc (h : S.Inv V l) {size align p : Nat} {s' : State} (hreq : Request size align)
    (hrun : slbAllocAlign S.st size align = .ok (some p, s')) :
    ∃ V' l', Allocated V size align p s' V' l' ∧
      Inv ⟨s', ⟨p, size, align⟩ :: S.live⟩ V' l' := by
  rcases h.slab.alloc_spec hreq.keyOk with hok | hno
  · obtain ⟨q, t, V', l', hrun', ha⟩ := hok
    obtain ⟨rfl, rfl⟩ : q = p ∧ t = s' := by
      have := hrun'.symm.trans hrun
      simpa using this
    refine ⟨V', l', ha, ha.inv, ?_, fun o ho => ?_, ?_⟩
    · rcases ha.taken with hold | hnew
      · rw [hold.1, hold.2]
        exact h.taken.cons q
      · obtain ⟨d, ht, hs⟩ := hnew
        rw [ht, hs]
        exact ((h.taken.cons d).trans List.perm_middle.symm).cons q
    · rcases List.mem_cons.1 ho with rfl | ho
      · obtain ⟨d, pre, v, post, hd, hal, hos, hpools, -, hin⟩ := ha.slot
        exact ⟨hreq, d, v, ⟨hd, by simp [hpools]⟩, hal, hos, hin⟩
      · exact ⟨(h.holds o ho).1, ha.grows.holds (h.holds o ho).2⟩
    · rw [ha.grows.first]
      rcases ha.taken with hold | hnew
      · rw [hold.2]
        exact h.last
      · obtain ⟨d, -, hs⟩ := hnew
        rw [hs, List.getLast?_cons, h.last]
        rfl
  · exact absurd hrun (hno.1 p s')

theorem Inv.free (h : S.Inv V l) {o : Obj} (ho : o ∈ S.live)
    (hagree : KeysAgree o.size o.align) :
    ∃ d v, V.Pool d v ∧ V.align d = keyAlign o.size o.align ∧ V.osize d = keySize o.size ∧
      o.ptr ∈ V.used v ∧ slbFreeAlign S.st o.ptr o.size o.align = .ok (0, S.st.putObj v o.ptr) ∧
      Inv ⟨S.st.putObj v o.ptr, S.live.erase o⟩
        (V.reslot v (o.ptr :: V.free v) (V.taken.erase o.ptr)) l := by
  obtain ⟨d, v, hv, hal, hos, hu, hnd, -⟩ := h.object ho
  have hsize := (h.holds o ho).1.size_lt
  refine ⟨d, v, hv, hal, hos, hu, h.slab.free_agree (by omega) hagree hv hal hos
    (View.mem_used.1 hu).2, h.slab.put hv hu hnd, ?_, fun q hq => ?_, h.last⟩
  · have hlive := ((List.perm_cons_erase ho).map Obj.ptr).append_right V.slabs
    have hperm := (h.taken.trans hlive).erase o.ptr
    rw [List.map_cons, List.cons_append, List.erase_cons_head] at hperm
    exact hperm
  · have hq' := h.holds q (List.mem_of_mem_erase hq)
    exact ⟨hq'.1, (View.Extends.reslot V v _ _).holds hq'.2⟩

theorem Inv.write (h : S.Inv V l) {o : Obj} {a : Nat} (v : UInt8) (ho : o ∈ S.live)
    (ha : o.ptr ≤ a ∧ a < o.ptr + o.size) :
    Inv { S with st := { S.st with mem := store8 S.st.mem a v } } V l := by
  obtain ⟨d, w, hw, -, -, hu, hnd, hle⟩ := h.object ho
  refine ⟨h.slab.client hw hu hnd rfl rfl fun b hb => store8_apply_of_ne ?_, h.taken, h.holds,
    h.last⟩
  intro hba
  have hb' : ¬ (o.ptr ≤ b ∧ b < o.ptr + V.osize d) := hb
  omega

theorem step_inv {e : SlabEvent} (hI : ∃ V l, S.Inv V l) (h : S.step e = some S') :
    ∃ V l, S'.Inv V l := by
  obtain ⟨V, l, hI⟩ := hI
  cases e with
  | alloc size align =>
      unfold step at h
      dsimp only at h
      split at h
      case isFalse => simp at h
      case isTrue hreq =>
        obtain ⟨⟨res, s'⟩, hres, hmap⟩ := Option.bind_eq_some_iff.1 h
        obtain ⟨p, hp, rfl⟩ := Option.map_eq_some_iff.1 hmap
        obtain rfl : res = some p := hp
        obtain ⟨V', l', -, hinv⟩ := hI.alloc hreq (Res.toOption_eq_some.1 hres)
        exact ⟨V', l', hinv⟩
  | free o =>
      unfold step at h
      dsimp only at h
      split at h
      case isFalse => simp at h
      case isTrue ho =>
        by_cases hagree : KeysAgree o.size o.align
        · obtain ⟨d, v, -, -, -, -, hrun, hinv⟩ := hI.free ho hagree
          rw [hrun] at h
          obtain rfl := Option.some.inj h
          exact ⟨_, l, hinv⟩
        · rw [hI.slab.free_disagree hagree] at h
          obtain rfl := Option.some.inj h
          exact ⟨V, l, hI⟩
  | write a v =>
      unfold step at h
      dsimp only at h
      split at h
      case isFalse => simp at h
      case isTrue hex =>
        obtain ⟨o, ho, ha⟩ := hex
        obtain rfl := Option.some.inj h
        exact ⟨V, l, hI.write v ho ha⟩

theorem run_inv {es : List SlabEvent} (hI : ∃ V l, S.Inv V l) (h : run step S es = some S') :
    ∃ V l, S'.Inv V l :=
  run_invariant (fun _ _ _ hI h => step_inv hI h) hI h

theorem init_inv {s : State} (h : init s = some S) : ∃ V l, S.Inv V l := by
  obtain ⟨P, hP, h⟩ := Option.bind_eq_some_iff.1 h
  obtain ⟨L, l, hpages⟩ := PagesSystem.init_inv hP
  obtain ⟨⟨c, t⟩, hrun, h⟩ := Option.bind_eq_some_iff.1 h
  rcases slbInit_spec hpages.represents with hok | hspin
  · obtain ⟨s', d, v, rest, l', hrun', hinv⟩ := hok
    rw [hrun'] at hrun
    obtain ⟨rfl, rfl⟩ : 0 = c ∧ s' = t := by simpa using Res.toOption_eq_some.1 hrun
    obtain rfl := Option.some.inj h
    exact ⟨_, l', hinv, List.Perm.refl _, by simp, rfl⟩
  · rw [hspin] at hrun
    simp [Res.toOption] at hrun

/-- In every state that a run of the allocator reaches the live objects are aligned, apart from each
other and from everything the allocator keeps, and counted. Freeing one returns, and changes nothing
when it returns 1; no request in the callers' range is answered with `NULL`, so these runs lose
only the requests that wait for memory. -/
theorem slab_run_safe {s : State} {S₀ S : SlabSystem} {es : List SlabEvent}
    (hinit : init s = some S₀) (hrun : run step S₀ es = some S) :
    (∃ V l, S.Safe V l) ∧
    (∀ o ∈ S.live, ∃ c s', slbFreeAlign S.st o.ptr o.size o.align = .ok (c, s') ∧
      (c = 1 → s' = S.st)) ∧
    ∀ size align, Request size align → align ≤ max 2048 size →
      ∀ s', slbAllocAlign S.st size align ≠ .ok (none, s') := by
  obtain ⟨V, l, hI⟩ := run_inv (init_inv hinit) hrun
  refine ⟨⟨V, l, hI.safe⟩, fun o ho => ?_, fun size align hreq hal s' hnone => ?_⟩
  · by_cases hagree : KeysAgree o.size o.align
    · obtain ⟨d, v, -, -, -, -, hfree, -⟩ := hI.free ho hagree
      exact ⟨0, _, hfree, by simp⟩
    · exact ⟨1, S.st, hI.slab.free_disagree hagree, fun _ => rfl⟩
  · rcases hI.slab.alloc_spec hreq.keyOk with hok | hno
    · obtain ⟨p, t, V', l', hcall, -⟩ := hok
      rw [hcall] at hnone
      simp at hnone
    · rw [hno.2 (hreq.roomy hal)] at hnone
      simp at hnone

/-- A run that makes a descriptor, puts an object back, and meets a call that returns 1. -/
def sampleRun : List SlabEvent :=
  [.alloc 8 8, .alloc 16 0, .write 2155880440 7, .free ⟨2155880440, 8, 8⟩]

theorem sampleRun_returns :
    ((init PagesSystem.blank).bind fun S => run step S sampleRun).isSome = true := by
  decide +kernel

theorem slab_run_safe_sample : ∃ S : SlabSystem, ∃ V l, S.Safe V l := by
  obtain ⟨S, hS⟩ := Option.isSome_iff_exists.1 sampleRun_returns
  obtain ⟨S₀, hinit, hrun⟩ := Option.bind_eq_some_iff.1 hS
  exact ⟨S, (slab_run_safe hinit hrun).1⟩

end SlabSystem

end Aimv6.Mm
