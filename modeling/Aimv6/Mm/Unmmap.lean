import Aimv6.Mm.Space

/-! # What `unmmap` gives back

`mmap` stores the address of a level 2 table divided by `PTE_L2SIZE`, and
`unmmap` takes it back without multiplying. It therefore looks for the table in
the first 512 KiB of memory, frees what the words there name, and leaves the
entries as they are. It does what it is for only where there is no table.
-/

namespace Aimv6.Mm

open Support

/-- The memory below all tables, where the undecoded addresses lead. -/
def lowMemory : Set Nat := {b | 0x80000000 ≤ b ∧ b < 0x80080000}

/-- `[start, finish)` is unmapped: `freed` are its frames, each once, and the other pages are
where they were. -/
structure Unmapped (M : Space) (pt start finish : Nat) (s : State) (freed : List (Nat × Nat)) :
    Prop where
  once : freed.Nodup
  frames : ∀ r, r ∈ freed ↔ ∃ v f, start ≤ 4096 * v ∧ 4096 * v < finish ∧ M.frame v = some f ∧
    r = (f, f + 4096)
  gone : ∀ va, start ≤ va → va < finish → s.walk pt va = none
  kept : ∀ va < KERNEL_BASE, va < start ∨ finish ≤ va → s.walk pt va = M.phys va

/-- `unmmap` undoes `mmap` on the range, whatever low memory holds. -/
def UnmmapContract (s : State) (M : Space) (pt start finish : Nat) : Prop :=
  ∀ m, AgreeOn lowMemoryᶜ s.mem m → ∃ s' freed,
    unmmap { s with mem := m } pt start finish = .ok (s', freed) ∧
    Unmapped M pt start finish s' freed

variable {s : State} {M : Space} {pt start finish i : Nat}

theorem Maps.of_low {m : Memory} (h : Maps s pt M) (hm : AgreeOn lowMemoryᶜ s.mem m) :
    Maps { s with mem := m } pt M := by
  have hpt := h.pt_lo
  refine h.congr (hm.mono fun b hb hlow => ?_)
  obtain ⟨hlo, hhi⟩ := hlow
  rcases hb with ⟨h₁, -⟩ | ⟨i, t, ht, h₁, -⟩
  · omega
  · have hok := h.table_ok i t ht
    have h₂ := hok.lo
    rw [hok.P2V_eq (by decide)] at h₁
    omega

theorem slotCount_eq (hlt : start < finish) (hle : finish ≤ 4294967296) :
    slotCount start finish = (finish - 1) / PAGE_L1SIZE + 1 - start / PAGE_L1SIZE := by
  unfold slotCount
  rw [show sub32 finish 1 = finish - 1 by unfold sub32; omega]

/-! ## Empty slots -/

theorem unmmapSlot_empty {freed : List (Nat × Nat)} (h : Maps s pt M) (hi : i < 2048)
    (hno : M.table i = none) : unmmapSlot pt start finish i (s, freed) = .ok (s, freed) := by
  have hhi := h.pt_hi
  unfold PTE_L1SIZE at hhi
  unfold unmmapSlot
  dsimp only
  rw [add32_of_lt (by omega), h.slot i hi, hno]
  exact if_pos rfl

/-- Without tables there is nothing to unmap, and the walk leaves all as it is. -/
theorem Maps.unmmap_empty (h : Maps s pt M) (hlt : start < finish) (hle : finish ≤ KERNEL_BASE)
    (hno : ∀ i, start / PAGE_L1SIZE ≤ i → i ≤ (finish - 1) / PAGE_L1SIZE → M.table i = none) :
    unmmap s pt start finish = .ok (s, []) ∧ Unmapped M pt start finish s [] := by
  unfold KERNEL_BASE at hle
  unfold PAGE_L1SIZE at hno
  have hnone : ∀ va, start ≤ va → va < finish → M.frame (va / 4096) = none := by
    intro va h₁ h₂
    have hbare := h.bare (va / 1048576) (by omega) (hno _ (by omega) (by omega))
      (va % 1048576 / 4096) (by omega)
    rwa [show 256 * (va / 1048576) + va % 1048576 / 4096 = va / 4096 by omega] at hbare
  constructor
  · unfold unmmap
    refine loopDown_id fun k h₁ h₂ => unmmapSlot_empty h ?_ (hno k ?_ ?_)
    all_goals
      rw [slotCount_eq hlt (by omega)] at h₂
      unfold PAGE_L1SIZE at h₁ h₂
      omega
  · refine ⟨List.nodup_nil, fun r => ?_, fun va h₁ h₂ => ?_, fun va hva _ => h.walk_eq hva⟩
    · simp only [List.not_mem_nil, false_iff]
      rintro ⟨v, f, h₁, h₂, hf, -⟩
      have := hnone (4096 * v) h₁ h₂
      rw [Nat.mul_div_cancel_left v (by decide), hf] at this
      simp at this
    · rw [h.walk_eq (by omega)]
      unfold Space.phys
      rw [hnone va h₁ h₂]
      rfl

/-! ## A slot with a table -/

theorem unmmapPage_mono {l2page j : Nat} {x : Nat × Nat} {r r' : State × List (Nat × Nat)}
    (hx : x ∈ r.2) (h : unmmapPage start finish l2page i j r = .ok r') : x ∈ r'.2 := by
  unfold unmmapPage at h
  dsimp only at h
  split at h
  · rwa [← Except.ok.inj h]
  · split at h
    · obtain ⟨c, -, hc⟩ := Res.bind_eq_ok.1 h
      rw [← Except.ok.inj hc]
      exact List.mem_append_left _ hx
    · rwa [← Except.ok.inj h]

theorem unmmapSlot_mono {x : Nat × Nat} {r r' : State × List (Nat × Nat)} (hx : x ∈ r.2)
    (h : unmmapSlot pt start finish i r = .ok r') : x ∈ r'.2 := by
  unfold unmmapSlot at h
  dsimp only at h
  split at h
  · rwa [← Except.ok.inj h]
  · obtain ⟨r₁, hloop, hrest⟩ := Res.bind_eq_ok.1 h
    obtain ⟨c, -, hc⟩ := Res.bind_eq_ok.1 hrest
    rw [← Except.ok.inj hc]
    exact loopUp_invariant (I := fun _ r => x ∈ r.2)
      (fun k r r' _ _ hr hpage => unmmapPage_mono hr hpage) hx hloop

/-- A word of type 2 in place of an entry of the range: frame 0 is given back. -/
theorem unmmapPage_garbage {l2page j : Nat} {r' : State × List (Nat × Nat)}
    (hlo : start ≤ i * PAGE_L1SIZE + j * PAGE_L2SIZE)
    (hhi : i * PAGE_L1SIZE + j * PAGE_L2SIZE < finish)
    (hword : s.word (add32 l2page (4 * j)) = 2)
    (h : unmmapPage start finish l2page i j (s, []) = .ok r') : (0, 4096) ∈ r'.2 := by
  unfold unmmapPage at h
  dsimp only at h
  rw [if_neg (by omega), hword, if_pos (Or.inl (by decide))] at h
  obtain ⟨c, -, hc⟩ := Res.bind_eq_ok.1 h
  rw [← Except.ok.inj hc]
  exact List.mem_append_right _ (List.mem_singleton.2 rfl)

theorem table_undecoded {t : Nat} (h : Managed 1024 t) :
    P2V (ptel1Base (t + 481)) = 2147483648 + t / 1024 := by
  have hal := h.aligned
  have hhi := h.hi
  have heq : ptel1Base (t + 481) = t / 1024 := by
    unfold ptel1Base
    omega
  rw [heq, P2V_of_lt (by omega), Nat.add_comm]

/-- The first table that the walk meets is looked for at a word of type 2. -/
theorem Maps.unmmap_garbage {t j : Nat} {s' : State} {freed : List (Nat × Nat)} (h : Maps s pt M)
    (hlt : start < finish) (hle : finish ≤ KERNEL_BASE) (ht : M.table i = some t)
    (hfirst : start / PAGE_L1SIZE ≤ i) (hlast : i ≤ (finish - 1) / PAGE_L1SIZE)
    (hno : ∀ k, i < k → k ≤ (finish - 1) / PAGE_L1SIZE → M.table k = none) (hj : j < 256)
    (hbefore : ∀ k < j, i * PAGE_L1SIZE + k * PAGE_L2SIZE < start)
    (hlo : start ≤ i * PAGE_L1SIZE + j * PAGE_L2SIZE)
    (hhi : i * PAGE_L1SIZE + j * PAGE_L2SIZE < finish)
    (hword : s.word (2147483648 + t / 1024 + 4 * j) = 2)
    (hrun : unmmap s pt start finish = .ok (s', freed)) : (0, 4096) ∈ freed := by
  have hi := h.user_table i t ht
  have hpt := h.pt_hi
  have htop := (h.table_ok i t ht).hi
  unfold KERNEL_BASE at hle
  unfold PTE_L1SIZE at hpt
  have hcount : slotCount start finish =
      (i - start / PAGE_L1SIZE + 1) + ((finish - 1) / PAGE_L1SIZE - i) := by
    rw [slotCount_eq hlt (by omega)]
    omega
  unfold unmmap at hrun
  rw [hcount, loopDown_skip fun k h₁ h₂ => unmmapSlot_empty h
    (by unfold PAGE_L1SIZE at *; omega) (hno k (by omega) (by omega)), loopDown_succ] at hrun
  obtain ⟨r, hslot, hrest⟩ := hrun
  refine loopDown_invariant (I := fun _ r => (0, 4096) ∈ r.2)
    (fun k r r' _ _ hr hstep => unmmapSlot_mono hr hstep) ?_ hrest
  have htype := (ptel1_fields (h.table_ok i t ht).aligned).1
  rw [Nat.add_sub_cancel' hfirst] at hslot
  unfold unmmapSlot at hslot
  dsimp only at hslot
  rw [add32_of_lt (by omega), h.slot i hi, ht, show tableEntry (some t) = t + 481 from rfl,
    if_neg (by rw [htype]; decide), table_undecoded (h.table_ok i t ht)] at hslot
  obtain ⟨r₁, hloop, hfree⟩ := Res.bind_eq_ok.1 hslot
  obtain ⟨c, -, hc⟩ := Res.bind_eq_ok.1 hfree
  rw [← Except.ok.inj hc]
  show (0, 4096) ∈ r₁.2
  have hpages : (PTE_L2SIZE >>> 2 : Nat) = j + ((255 - j) + 1) := by
    rw [show (PTE_L2SIZE >>> 2 : Nat) = 256 from rfl]
    omega
  rw [hpages, loopUp_skip (fun k _ hk => if_pos (Or.inl (hbefore k (by omega)))), loopUp_succ] at hloop
  obtain ⟨r₂, hpage, hmore⟩ := hloop
  rw [Nat.zero_add] at hpage
  exact loopUp_invariant (I := fun _ r => (0, 4096) ∈ r.2)
    (fun k r r' _ _ hr hstep => unmmapPage_mono hr hstep)
    (unmmapPage_garbage hlo hhi (by rw [add32_of_lt (by omega)]; exact hword) hpage) hmore

/-- A table in the range, and a word in low memory where `unmmap` looks for it. -/
theorem Maps.unmmap_table {t : Nat} (h : Maps s pt M) (hstart : start % 4096 = 0)
    (hlt : start < finish) (hle : finish ≤ KERNEL_BASE) (ht : M.table i = some t)
    (hfirst : start / PAGE_L1SIZE ≤ i) (hlast : i ≤ (finish - 1) / PAGE_L1SIZE)
    (hno : ∀ k, i < k → k ≤ (finish - 1) / PAGE_L1SIZE → M.table k = none) :
    ¬ UnmmapContract s M pt start finish := by
  intro hall
  have hok := h.table_ok i t ht
  have hlo := hok.lo
  have hhi := hok.hi
  -- the first entry of this table that is in the range
  obtain ⟨j, hj⟩ : ∃ j, j = (start - i * PAGE_L1SIZE) / PAGE_L2SIZE := ⟨_, rfl⟩
  unfold PAGE_L1SIZE at hfirst hlast hj
  unfold PAGE_L2SIZE at hj
  have hlow : AgreeOn lowMemoryᶜ s.mem (store32 s.mem (2147483648 + t / 1024 + 4 * j) 2) := by
    refine store32_agreeOn fun b hb => ?_
    by_contra hc
    exact hb ⟨by omega, by omega⟩
  obtain ⟨s', freed, hrun, hdone⟩ := hall _ hlow
  have hword : load32 (store32 s.mem (2147483648 + t / 1024 + 4 * j) 2)
      (2147483648 + t / 1024 + 4 * j) = 2 := load32_store32_of_lt _ (by decide)
  have hfreed : (0, 4096) ∈ freed := by
    refine (h.of_low hlow).unmmap_garbage hlt hle ht hfirst hlast hno (j := j) ?_ ?_ ?_ ?_ hword hrun
    · omega
    · intro k hk
      unfold PAGE_L1SIZE PAGE_L2SIZE
      omega
    · unfold PAGE_L1SIZE PAGE_L2SIZE
      omega
    · unfold PAGE_L1SIZE PAGE_L2SIZE
      omega
  obtain ⟨v, f, -, -, hf, hpair⟩ := (hdone.frames _).1 hfreed
  obtain ⟨rfl, -⟩ := Prod.mk.inj hpair
  exact absurd (h.frame_ok v 0 hf).lo (by decide)

/-- `unmmap` does what it is for exactly where no 1 MiB slot of the range has a table. -/
theorem unmmap_contract_iff (h : Maps s pt M) (hstart : start % 4096 = 0) (hlt : start < finish)
    (hle : finish ≤ KERNEL_BASE) :
    UnmmapContract s M pt start finish ↔
      ∀ i, start / PAGE_L1SIZE ≤ i → i ≤ (finish - 1) / PAGE_L1SIZE → M.table i = none := by
  constructor
  · intro hall
    by_contra hex
    push Not at hex
    obtain ⟨k, hk₁, hk₂, hk⟩ := hex
    -- the last slot of the range that has a table
    obtain ⟨i, hlast, ⟨hfirst, hne⟩, hmax⟩ := exists_last
      (P := fun i => start / PAGE_L1SIZE ≤ i ∧ M.table i ≠ none) hk₂ ⟨hk₁, hk⟩
    have hno : ∀ k, i < k → k ≤ (finish - 1) / PAGE_L1SIZE → M.table k = none := by
      intro k h₁ h₂
      by_contra hc
      exact hmax k h₁ h₂ ⟨Nat.le_trans hfirst h₁.le, hc⟩
    cases ht : M.table i with
    | none => exact hne ht
    | some t => exact h.unmmap_table hstart hlt hle ht hfirst hlast hno hall
  · intro hno m hm
    obtain ⟨hrun, hdone⟩ := (h.of_low hm).unmmap_empty hlt hle hno
    exact ⟨_, [], hrun, hdone⟩

theorem unmmap_onePage : (unmmap State.onePage 0x80104000 0 4096).toOption.map
    (fun r => (r.2, r.1.walk 0x80104000 0)) = some ([], some 0x801000) := by
  decide +kernel

/-- In empty memory the one page of a space stays mapped, and nothing is given back. -/
theorem unmmap_contract_fails : ∃ s', Maps State.onePage 0x80104000 Space.onePage ∧
    unmmap State.onePage 0x80104000 0 4096 = .ok (s', []) ∧
    ¬ Unmapped Space.onePage 0x80104000 0 4096 s' [] := by
  obtain ⟨⟨s', freed⟩, hrun, hpair⟩ := Option.map_eq_some_iff.1 unmmap_onePage
  obtain ⟨rfl, hwalk⟩ := Prod.mk.inj hpair
  refine ⟨s', maps_onePage, Res.toOption_eq_some.1 hrun, fun hdone => ?_⟩
  have hgone := hdone.gone 0 (Nat.le_refl 0) (by decide)
  rw [hgone] at hwalk
  exact absurd hwalk (by decide)

/-- The second megabyte of that space has no table. -/
theorem unmmap_contract_iff_sample :
    UnmmapContract State.onePage Space.onePage 0x80104000 0x100000 0x200000 := by
  have hiff := @unmmap_contract_iff State.onePage Space.onePage 0x80104000 0x100000 0x200000
    maps_onePage (by decide) (by decide) (by decide)
  refine hiff.2 fun i h₁ _ => if_neg ?_
  rintro rfl
  exact absurd h₁ (by decide)

end Aimv6.Mm
