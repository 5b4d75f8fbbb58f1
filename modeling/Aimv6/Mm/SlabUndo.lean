import Aimv6.Mm.Kmalloc

/-! # Freeing after allocating

Whether a call of the freeing function undoes the call of the allocating
function before it: the slot is put back, the next call returns it again, and
any number of further rounds leaves the free pages as they are. The two
functions derive the key of a request by rules of their own, and the freeing one
is a silent failure where these differ.
-/

namespace Aimv6.Mm

open Support

def roundTrip (alloc : State → Res (Option Nat × State)) (free : State → Nat → Res (Nat × State))
    (s : State) : Option State :=
  (alloc s).toOption.bind fun r => r.1.bind fun p => (free r.2 p).toOption.map fun c => c.2

theorem roundTrip_of {alloc : State → Res (Option Nat × State)}
    {free : State → Nat → Res (Nat × State)} {s s₁ s₂ : State} {p c : Nat}
    (ha : alloc s = .ok (some p, s₁)) (hf : free s₁ p = .ok (c, s₂)) :
    roundTrip alloc free s = some s₂ := by
  unfold roundTrip
  rw [ha]
  show (free s₁ p).toOption.map (fun c => c.2) = some s₂
  rw [hf]
  rfl

def roundTrips (alloc : State → Res (Option Nat × State))
    (free : State → Nat → Res (Nat × State)) : Nat → State → Option State
  | 0, s => some s
  | n + 1, s => (roundTrip alloc free s).bind (roundTrips alloc free n)

/-- In `s₁`, just after `alloc` has returned `p`, whose slot is `slot`, `free` undoes the call. -/
def Undone (alloc : State → Res (Option Nat × State)) (free : State → Nat → Res (Nat × State))
    (slot p : Nat) (s₁ : State) : Prop :=
  ∃ s₂, free s₁ p = .ok (0, s₂) ∧
    (∃ V d v, Stored s₂ V ∧ V.Pool d v ∧ v ≤ slot ∧ slot < v + s₂.poolSize v ∧
      s₂.objHead v = some slot ∧ s₁.cntInuse v = s₂.cntInuse v + 1) ∧
    (∃ s₃, alloc s₂ = .ok (some p, s₃)) ∧
    ∃ l, Represents s₁ l ∧ ∀ n, ∃ s', roundTrips alloc free n s₂ = some s' ∧ Represents s' l

/-- `p` is the slot that the next request for its key gets. -/
structure Ready (V : View) (size align p : Nat) (d v : Nat) : Prop where
  slab : d ∈ V.slabs
  align : V.align d = keyAlign size align
  size : V.osize d = keySize size
  pools : ∃ pre post, V.pools d = pre ++ v :: post ∧ ∀ w ∈ pre, V.free w = []
  free : ∃ rest, V.free v = p :: rest

variable {s : State} {V : View} {l : List Extent} {size align p d v : Nat}

theorem Ready.pool (h : Ready V size align p d v) : V.Pool d v := by
  obtain ⟨pre, post, hpools, -⟩ := h.pools
  exact ⟨h.slab, by simp [hpools]⟩

/-- Putting back a slot of the first pool that has, or had, a free one makes it ready. -/
theorem SlabInv.put_ready (h : SlabInv s V l) (hsize : size < 2147483648)
    (hagree : KeysAgree size align) {pre post : List Nat} (hd : d ∈ V.slabs)
    (hal : V.align d = keyAlign size align) (hos : V.osize d = keySize size)
    (hpools : V.pools d = pre ++ v :: post) (hpre : ∀ w ∈ pre, V.free w = []) (hp : p ∈ V.used v)
    (hnd : p ∉ V.slabs) :
    slbFreeAlign s p size align = .ok (0, s.putObj v p) ∧
      SlabInv (s.putObj v p) (V.reslot v (p :: V.free v) (V.taken.erase p)) l ∧
      Ready (V.reslot v (p :: V.free v) (V.taken.erase p)) size align p d v := by
  have hv : V.Pool d v := ⟨hd, by simp [hpools]⟩
  have hnodup : (V.pools d).Nodup := (h.stored.slab d hd).pools.nodup
  refine ⟨h.free_agree hsize hagree hv hal hos (View.mem_used.1 hp).2, h.put hv hp hnd, hd, hal,
    hos, ⟨pre, post, hpools, fun w hw => ?_⟩, V.free v, Function.update_self _ _ _⟩
  rw [hpools] at hnodup
  have hwv : w ≠ v := (List.nodup_append.1 hnodup).2.2 w hw v (by simp)
  exact (Function.update_of_ne hwv _ _).trans (hpre w hw)

theorem SlabInv.round (h : SlabInv s V l) (hsize : size < 2147483648)
    (hagree : KeysAgree size align) (hr : Ready V size align p d v) :
    ∃ s₁ s₂ V₂, slbAllocAlign s size align = .ok (some p, s₁) ∧
      slbFreeAlign s₁ p size align = .ok (0, s₂) ∧ SlabInv s₂ V₂ l ∧
      Ready V₂ size align p d v := by
  obtain ⟨pre, post, hpools, hpre⟩ := hr.pools
  obtain ⟨rest, hfree⟩ := hr.free
  obtain ⟨depth, hdepth⟩ : ∃ k, walkFuel = k + 1 := ⟨4294967295, rfl⟩
  obtain ⟨s₁, hrun, hinv⟩ :=
    @SlabInv.alloc_reuse s V l d v p h size align depth pre post rest hr.slab hr.align hr.size
      hpools hpre hfree
  have hpf : p ∈ V.free v := by simp [hfree]
  have hused : p ∈ (V.reslot v rest (p :: V.taken)).used v :=
    View.mem_used.2 ⟨List.mem_cons_self .., h.layout.free_inPool hr.pool hpf⟩
  have hnd : p ∉ V.slabs := fun hc =>
    h.layout.free_not_taken hr.pool hpf (h.layout.descriptor p hc).1
  have hnodup : (V.pools d).Nodup := (h.stored.slab d hr.slab).pools.nodup
  have hpre' : ∀ w ∈ pre, (V.reslot v rest (p :: V.taken)).free w = [] := by
    intro w hw
    rw [hpools] at hnodup
    have hwv : w ≠ v := (List.nodup_append.1 hnodup).2.2 w hw v (by simp)
    exact (Function.update_of_ne hwv _ _).trans (hpre w hw)
  obtain ⟨hput, hinv₂, hready⟩ := hinv.put_ready hsize hagree hr.slab hr.align hr.size hpools hpre'
    hused hnd
  refine ⟨s₁, _, _, ?_, hput, hinv₂, hready⟩
  unfold slbAllocAlign
  rw [hdepth]
  exact hrun

/-- Any number of rounds gets the same slot and leaves the free pages alone. -/
theorem SlabInv.rounds (hsize : size < 2147483648) (hagree : KeysAgree size align) (n : Nat) :
    ∀ {s : State} {V : View}, SlabInv s V l → Ready V size align p d v →
      ∃ s', roundTrips (fun s => slbAllocAlign s size align)
        (fun s p => slbFreeAlign s p size align) n s = some s' ∧ Represents s' l := by
  induction n with
  | zero => exact fun {s V} h _ => ⟨s, rfl, h.represents⟩
  | succ n ih =>
      intro s V h hr
      obtain ⟨s₁, s₂, V₂, halloc, hfree, hinv, hready⟩ := h.round hsize hagree hr
      obtain ⟨s', hrest, hrep⟩ := ih hinv hready
      refine ⟨s', ?_, hrep⟩
      have htrip := @roundTrip_of (fun s => slbAllocAlign s size align)
        (fun s p => slbFreeAlign s p size align) s s₁ s₂ p 0 halloc hfree
      show (roundTrip _ _ s).bind _ = some s'
      rw [htrip]
      exact hrest

namespace SlabSystem

variable {S : SlabSystem}

theorem Inv.undone (h : S.Inv V l) (hreq : Request size align) (hagree : KeysAgree size align)
    {s₁ : State} (hrun : slbAllocAlign S.st size align = .ok (some p, s₁)) :
    Undone (fun s => slbAllocAlign s size align) (fun s p => slbFreeAlign s p size align) p p
      s₁ := by
  have hsize := hreq.size_lt
  obtain ⟨V₁, l₁, ha, hI⟩ := h.alloc hreq hrun
  obtain ⟨d, pre, v, post, hd, hal, hos, hpools, hpre, hin⟩ := ha.slot
  have hv : V₁.Pool d v := ⟨hd, by simp [hpools]⟩
  have hnodup := hI.taken.nodup_iff.1 hI.slab.layout.taken_nodup
  have htaken : p ∈ V₁.taken := hI.taken.mem_iff.2 (by simp)
  have hnd : p ∉ V₁.slabs := fun hc =>
    (List.nodup_append.1 hnodup).2.2 p (by simp) p hc rfl
  have hused : p ∈ V₁.used v := View.mem_used.2 ⟨htaken, hin⟩
  obtain ⟨hfree, hinv, hready⟩ := hI.slab.put_ready (by omega) hagree hd hal hos hpools hpre hused
    hnd
  have hstored := hinv.stored.pool d v hv
  obtain ⟨s₂, s₃, V₃, halloc, -⟩ := hinv.round (by omega) hagree hready
  refine ⟨_, hfree, ⟨_, d, v, hinv.stored, hv, hin.1, ?_, ?_, ?_⟩, ⟨s₂, halloc⟩, l₁,
    hI.slab.represents, fun n => SlabInv.rounds (by omega) hagree n hinv hready⟩
  · rw [hstored.size]
    exact hin.2
  · have hhead := hstored.objs.head_eq
    have hfr : (V₁.reslot v (p :: V₁.free v) (V₁.taken.erase p)).free v = p :: V₁.free v :=
      Function.update_self _ _ _
    rw [hfr] at hhead
    exact hhead
  · have hcount := hI.slab.layout.count_put hv hused hnd hv
    rw [if_pos rfl] at hcount
    rw [hstored.cnt, (hI.slab.stored.pool d v hv).cnt]
    exact hcount

theorem Inv.not_undone (h : S.Inv V l) (hreq : Request size align)
    (hagree : ¬ KeysAgree size align) {s₁ : State}
    (hrun : slbAllocAlign S.st size align = .ok (some p, s₁)) :
    slbFreeAlign s₁ p size align = .ok (1, s₁) := by
  obtain ⟨V₁, l₁, -, hI⟩ := h.alloc hreq hrun
  exact hI.slab.free_disagree hagree

theorem Inv.kmfree_fails (h : S.Inv V l) {q : Nat} {s₁ : State} (hpos : 1 ≤ size)
    (hsize : size + 4 ≤ 268435456) (hrun : kmalloc S.st size = .ok (some q, s₁)) :
    kmfree s₁ q = .ok (1, s₁) := by
  obtain ⟨b, hb, hle, hbound, -⟩ := upBound_spec hsize
  obtain ⟨hreq, hagree⟩ := upBound_request hpos hle hbound
  obtain ⟨p, t, halloc, rfl, rfl⟩ := kmalloc_of_some hb hrun
  obtain ⟨V₁, l₁, -, hI⟩ := h.alloc hreq halloc
  obtain ⟨d, v, hv, -, -, hused, hnd, hfit⟩ := hI.object (List.mem_cons_self ..)
  have hfit' : b ≤ V₁.osize d := hfit
  have hbounds := hI.slab.layout.slot_bounds hv (View.mem_slots.2 (Or.inr hused))
  have hbounds' : p + V₁.osize d ≤ 2667577344 := hbounds.2
  have hkeep : SlabInv (t.setWord p size) V₁ l₁ := by
    refine hI.slab.client hv hused hnd rfl rfl fun b hb => store32_apply_of_outside ?_
    have hout : ¬ (p ≤ b ∧ b < p + V₁.osize d) := hb
    omega
  rw [@kmfree_eq (t.setWord p size) p size b (by omega) (State.word_setWord_same _ (by omega)) hb]
  exact hkeep.free_disagree hagree

/-- In every reachable state and for every request that is granted, freeing undoes allocating exactly
where both functions derive the same key. For `slb_alloc` and `slb_free` these are the objects of
four bytes, and there are none for `kmalloc` and `kmfree`. -/
theorem free_undoes_alloc_iff {s : State} {S₀ S : SlabSystem} {es : List SlabEvent}
    (hinit : init s = some S₀) (hrun : run step S₀ es = some S) :
    (∀ size align p s₁, Request size align → slbAllocAlign S.st size align = .ok (some p, s₁) →
      (Undone (fun s => slbAllocAlign s size align) (fun s p => slbFreeAlign s p size align) p p s₁ ↔
        4 ≤ size ∧ (align ≠ 0 ∨ size = 4))) ∧
    (∀ size p s₁, Request size 0 → slbAlloc S.st size = .ok (some p, s₁) →
      (Undone (fun s => slbAlloc s size) (fun s p => slbFree s p size) p p s₁ ↔ size = 4)) ∧
    ∀ size q s₁, 1 ≤ size → size + 4 ≤ 268435456 → kmalloc S.st size = .ok (some q, s₁) →
      ¬ Undone (fun s => kmalloc s size) kmfree (sub32 q 4) q s₁ := by
  obtain ⟨V, l, hI⟩ := run_inv (init_inv hinit) hrun
  have hiff : ∀ size align p s₁, Request size align →
      slbAllocAlign S.st size align = .ok (some p, s₁) →
      (Undone (fun s => slbAllocAlign s size align) (fun s p => slbFreeAlign s p size align) p p s₁ ↔
        KeysAgree size align) := by
    intro size align p s₁ hreq halloc
    refine ⟨fun hu => ?_, fun hagree => hI.undone hreq hagree halloc⟩
    by_contra hagree
    obtain ⟨s₂, hfree, -⟩ := hu
    have hcode := (hI.not_undone hreq hagree halloc).symm.trans hfree
    simp at hcode
  refine ⟨hiff, fun size p s₁ hreq halloc => ?_, fun size q s₁ hpos hsize halloc hu => ?_⟩
  · refine (hiff size 0 p s₁ hreq halloc).trans ?_
    unfold KeysAgree
    omega
  · obtain ⟨s₂, hfree, -⟩ := hu
    rw [hI.kmfree_fails hpos hsize halloc] at hfree
    simp at hfree

theorem slbAlloc_eight_returns :
    ((init PagesSystem.blank).bind fun S =>
      (slbAlloc S.st 8).toOption.bind fun r => r.1) = some 2155880440 := by
  decide +kernel

theorem slbFree_eight_fails : ∃ (S₀ : SlabSystem) (s₁ : State), init PagesSystem.blank = some S₀ ∧
    slbAlloc S₀.st 8 = .ok (some 2155880440, s₁) ∧ slbFree s₁ 2155880440 8 = .ok (1, s₁) ∧
    ¬ Undone (fun s => slbAlloc s 8) (fun s p => slbFree s p 8) 2155880440 2155880440 s₁ := by
  obtain ⟨S₀, hinit, hbind⟩ := Option.bind_eq_some_iff.1 slbAlloc_eight_returns
  obtain ⟨⟨res, s₁⟩, hres, hp⟩ := Option.bind_eq_some_iff.1 hbind
  obtain rfl : res = some 2155880440 := hp
  have hcall := Res.toOption_eq_some.1 hres
  obtain ⟨V, l, hI⟩ := init_inv hinit
  have hfree : slbFree s₁ 2155880440 8 = .ok (1, s₁) :=
    hI.not_undone (by decide : Request 8 0) (by decide) hcall
  refine ⟨S₀, s₁, hinit, hcall, hfree, fun hu => ?_⟩
  obtain ⟨s₂, hfree', -⟩ := hu
  have hcode := hfree.symm.trans hfree'
  simp at hcode

/-- Objects of four bytes are put back, those of eight are not. -/
theorem free_undoes_alloc_iff_sample : ∃ (S : SlabSystem) (s₁ : State),
    slbAlloc S.st 8 = .ok (some 2155880440, s₁) ∧
    ¬ Undone (fun s => slbAlloc s 8) (fun s p => slbFree s p 8) 2155880440 2155880440 s₁ := by
  obtain ⟨S₀, hinit, hbind⟩ := Option.bind_eq_some_iff.1 slbAlloc_eight_returns
  obtain ⟨⟨res, s₁⟩, hres, hp⟩ := Option.bind_eq_some_iff.1 hbind
  obtain rfl : res = some 2155880440 := hp
  have hcall := Res.toOption_eq_some.1 hres
  have hiff := (@free_undoes_alloc_iff _ _ _ [] hinit rfl).2.1 8 2155880440 s₁ (by decide) hcall
  exact ⟨S₀, s₁, hcall, fun hu => absurd (hiff.1 hu) (by decide)⟩

end SlabSystem

end Aimv6.Mm
