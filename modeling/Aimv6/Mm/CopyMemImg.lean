import Aimv6.Mm.Fresh
import Aimv6.Mm.Unmmap
import Mathlib.Data.Fintype.Card

/-! # What `_fork` copies

`copy_mem_img` takes the address of a level 2 table of the parent back without
multiplying it by `PTE_L2SIZE`, as `unmmap` does, and decides by the words it
finds there in low memory which pages the child gets. It copies an address space
only where the parent has no level 2 table.
-/

namespace Aimv6.Mm

open Support

/-- `_fork` calls `copy_mem_img` for the parent's table at `ptFrm` and a zeroed table at `ptTo`;
the bytes `U` are in use. -/
structure Forking (Holds : State → Set Nat → Prop) (s : State) (U : Set Nat) (M : Space)
    (ptFrm ptTo : Nat) : Prop where
  parent : Maps s ptFrm M
  child_lo : 0x80100000 ≤ ptTo
  child_hi : ptTo + PTE_L1SIZE ≤ 4294967296
  child_zero : ∀ i < 4096, s.word (ptTo + 4 * i) = 0
  apart : ptTo + PTE_L1SIZE ≤ ptFrm ∨ ptFrm + PTE_L1SIZE ≤ ptTo
  child_table : ∀ i t, M.table i = some t → ptTo + PTE_L1SIZE ≤ P2V t ∨ P2V t + 1024 ≤ ptTo
  child_frame : ∀ v f, M.frame v = some f → ptTo + PTE_L1SIZE ≤ P2V f ∨ P2V f + 4096 ≤ ptTo
  holds : Holds s U
  held : lowMemory ∪ M.tables ptFrm ∪ M.frames ∪ Set.Ico ptFrm (ptFrm + PTE_L1SIZE) ∪
    Set.Ico ptTo (ptTo + PTE_L1SIZE) ⊆ U

/-- The child at `ptTo` has a copy of the parent's user pages in frames of its own, and the
parent's kernel half. -/
structure Copied (M : Space) (U : Set Nat) (ptFrm ptTo : Nat) (s s' : State) : Prop where
  mapped : ∀ va < KERNEL_BASE, (s'.walk ptTo va).isSome = (s.walk ptFrm va).isSome
  content : ∀ va < KERNEL_BASE, ∀ a a', s.walk ptFrm va = some a → s'.walk ptTo va = some a' →
    s'.mem (P2V a') = s.mem (P2V a)
  own : ∀ va < KERNEL_BASE, ∀ va' < KERNEL_BASE, ∀ a, s'.walk ptTo va = some a →
    s'.walk ptTo va' = some a → va = va'
  fresh : ∀ va < KERNEL_BASE, ∀ a, s'.walk ptTo va = some a → P2V a ∉ U
  kernel : ∀ i, 2048 ≤ i → i < 4096 → s'.word (ptTo + 4 * i) = s.word (ptFrm + 4 * i)
  kept : AgreeOn (Set.Ico ptFrm (ptFrm + PTE_L1SIZE) ∪ M.tables ptFrm ∪ M.frames) s.mem s'.mem

/-- The call of `copy_mem_img` in `_fork` copies the address space, whatever low memory holds. -/
def CopyContract (A : Allocators) (s : State) (U : Set Nat) (M : Space) (ptFrm ptTo : Nat) : Prop :=
  ∀ m, AgreeOn lowMemoryᶜ s.mem m → ∃ s',
    copyMemImg A { s with mem := m } ptFrm ptFrm ptTo 0 0xFFFFFFFF pattern1 pattern2 = .ok s' ∧
    Copied M U ptFrm ptTo { s with mem := m } s'

variable {A : Allocators} {Holds : State → Set Nat → Prop} {s s' : State} {U : Set Nat} {M : Space}
  {ptFrm ptTo i n : Nat}

theorem Forking.of_low {m : Memory} (h : Forking Holds s U M ptFrm ptTo) (hA : Fresh A Holds)
    (hm : AgreeOn lowMemoryᶜ s.mem m) : Forking Holds { s with mem := m } U M ptFrm ptTo := by
  have hlo := h.child_lo
  have hmU : AgreeOn Uᶜ s.mem m := hm.mono fun b hb hlow =>
    hb (h.held (Or.inl (Or.inl (Or.inl (Or.inl hlow)))))
  refine { h with
    parent := h.parent.of_low hm
    child_zero := fun i hi => ?_
    holds := hA.store s U m h.holds hmU }
  rw [← h.child_zero i hi]
  refine load32_congr hm fun b h₁ _ hlow => ?_
  have := hlow.2
  omega

theorem walk_none {pt va : Nat} (h : s.word (pt + 4 * (va / PAGE_L1SIZE)) = 0) :
    s.walk pt va = none := by
  unfold State.walk
  dsimp only
  rw [h]
  rfl

theorem Maps.unmapped_page (h : Maps s ptFrm M) :
    ∃ u, 126976 ≤ u ∧ u < 524288 ∧ M.frame u = none := by
  by_contra hall
  have hsome : ∀ k : Fin 397312, ∃ f, M.frame (126976 + k.val) = some f := by
    intro k
    have hk := k.isLt
    cases hf : M.frame (126976 + k.val) with
    | none => exact absurd ⟨_, by omega, by omega, hf⟩ hall
    | some f => exact ⟨f, rfl⟩
  choose f hf using hsome
  have hlt : ∀ k, f k / 4096 < 126976 := fun k => by
    have := (h.frame_ok _ _ (hf k)).hi
    omega
  have hinj : Function.Injective fun k : Fin 397312 => (⟨f k / 4096, hlt k⟩ : Fin 126976) := by
    intro k k' heq
    have hdiv : f k / 4096 = f k' / 4096 := congrArg Fin.val heq
    have h₁ := (h.frame_ok _ _ (hf k)).aligned
    have h₂ := (h.frame_ok _ _ (hf k')).aligned
    have hsame : f k = f k' := by omega
    have hpage := h.frame_once _ _ _ (hf k) (hsame ▸ hf k')
    exact Fin.ext (by omega)
  have hcard := Fintype.card_le_of_injective _ hinj
  rw [Fintype.card_fin, Fintype.card_fin] at hcard
  omega

/-! ## A parent without tables -/

theorem copySlot_empty (h : Maps s ptFrm M) (hi : i < 2048) (hno : M.table i = none) :
    copySlot A ptFrm ptFrm ptTo 0 0xFFFFFFFF pattern1 pattern2 i s = .ok s := by
  have hhi := h.pt_hi
  unfold PTE_L1SIZE at hhi
  unfold copySlot
  rw [if_neg (by rw [show KERNEL_BASE / PAGE_L1SIZE = 2048 from rfl]; omega)]
  dsimp only
  rw [add32_of_lt (by omega), h.slot i hi, hno]
  exact if_pos (Or.inl rfl)

theorem copySlots_kernel (hlo : 2048 ≤ i) (hhi : i + n ≤ 4096) (hfrm : ptFrm + 16384 ≤ 4294967296)
    (hto : ptTo + 16384 ≤ 4294967296) (hapart : ptTo + 16384 ≤ ptFrm ∨ ptFrm + 16384 ≤ ptTo) :
    ∃ s', loopUp (copySlot A ptFrm ptFrm ptTo 0 0xFFFFFFFF pattern1 pattern2) n i s = .ok s' ∧
      (∀ b, b < ptTo + 4 * i ∨ ptTo + 4 * (i + n) ≤ b → s'.mem b = s.mem b) ∧
      ∀ k, i ≤ k → k < i + n → s'.word (ptTo + 4 * k) = s.word (ptFrm + 4 * k) := by
  induction n generalizing i s with
  | zero => exact ⟨s, rfl, fun _ _ => rfl, fun k h₁ h₂ => by omega⟩
  | succ n ih =>
      obtain ⟨s₁, hs₁⟩ : ∃ s₁, s₁ = s.setWord (ptTo + 4 * i) (s.word (ptFrm + 4 * i)) := ⟨_, rfl⟩
      have hstep : copySlot A ptFrm ptFrm ptTo 0 0xFFFFFFFF pattern1 pattern2 i s = .ok s₁ := by
        unfold copySlot
        rw [if_pos (by rw [show KERNEL_BASE / PAGE_L1SIZE = 2048 from rfl]; omega),
          add32_of_lt (by omega), add32_of_lt (by omega), hs₁]
      have hkept : ∀ b, b < ptTo + 4 * i ∨ ptTo + 4 * i + 4 ≤ b → s₁.mem b = s.mem b := by
        intro b hb
        rw [hs₁]
        exact store32_apply_of_outside hb
      obtain ⟨s', hrun, hout, hin⟩ := @ih s₁ (i + 1) (by omega) (by omega)
      refine ⟨s', loopUp_succ.2 ⟨s₁, hstep, hrun⟩, fun b hb => ?_, fun k h₁ h₂ => ?_⟩
      · rw [hout b (by omega)]
        exact hkept b (by omega)
      · by_cases hk : k = i
        · have hself : s₁.word (ptTo + 4 * i) = s.word (ptFrm + 4 * i) := by
            rw [hs₁]
            exact load32_store32_of_lt _ (load32_lt _ _)
          rw [hk, ← hself]
          exact load32_ext fun b h₁ h₂ => hout b (by omega)
        · rw [hin k (by omega) (by omega)]
          exact load32_ext fun b h₁ h₂ => hkept b (by omega)

/-- Without tables the child gets the kernel half and no page, as its parent has none. -/
theorem Forking.copy_empty (h : Forking Holds s U M ptFrm ptTo)
    (hno : ∀ i < 2048, M.table i = none) : ∃ s',
    copyMemImg A s ptFrm ptFrm ptTo 0 0xFFFFFFFF pattern1 pattern2 = .ok s' ∧
    Copied M U ptFrm ptTo s s' := by
  have hP := h.parent
  have hfrm := hP.pt_hi
  have hto := h.child_hi
  have hapart := h.apart
  unfold PTE_L1SIZE at hfrm hto hapart
  obtain ⟨s', hrun, hout, hin⟩ := @copySlots_kernel A s ptFrm ptTo 2048 2048 (Nat.le_refl _)
    (by decide) hfrm hto hapart
  have hframe : ∀ v, M.frame v = none := by
    intro v
    cases hf : M.frame v with
    | none => rfl
    | some f =>
        have hv := hP.user_frame v f hf
        have hbare := hP.bare (v / 256) (by omega) (hno _ (by omega)) (v % 256) (by omega)
        rw [Nat.div_add_mod, hf] at hbare
        simp at hbare
  have hparent : ∀ va < KERNEL_BASE, s.walk ptFrm va = none := by
    intro va hva
    rw [hP.walk_eq hva]
    unfold Space.phys
    rw [hframe]
    rfl
  have hchild : ∀ va < KERNEL_BASE, s'.walk ptTo va = none := by
    intro va hva
    unfold KERNEL_BASE at hva
    apply walk_none
    unfold PAGE_L1SIZE
    rw [← h.child_zero (va / 1048576) (by omega)]
    exact load32_ext fun b h₁ h₂ => hout b (by omega)
  refine ⟨s', ?_, fun va hva => ?_, fun va hva a a' ha _ => ?_, fun va hva va' _ a ha _ => ?_,
    fun va hva a ha => ?_, fun i h₁ h₂ => hin i h₁ h₂, fun b hb => hout b ?_⟩
  · unfold copyMemImg
    rw [show slotCount 0 0xFFFFFFFF = 2048 + 2048 from rfl,
      show 0 / PAGE_L1SIZE = 0 from rfl,
      loopUp_skip fun k _ hk => copySlot_empty hP (by omega) (hno k (by omega))]
    exact hrun
  · rw [hchild va hva, hparent va hva]
  · rw [hparent va hva] at ha
    simp at ha
  · rw [hchild va hva] at ha
    simp at ha
  · rw [hchild va hva] at ha
    simp at ha
  · rcases hb with (⟨h₁, h₂⟩ | ⟨h₁, h₂⟩ | ⟨i, t, ht, -, -⟩) | ⟨v, f, hf, -, -⟩
    · unfold PTE_L1SIZE at h₂
      omega
    · omega
    · rw [hno i (hP.user_table i t ht)] at ht
      simp at ht
    · rw [hframe v] at hf
      simp at hf

/-! ## A parent with a table -/

theorem Forking.tables_held (h : Forking Holds s U M ptFrm ptTo) {b : Nat}
    (hb : b ∈ M.tables ptFrm) : b ∈ U := h.held (Or.inl (Or.inl (Or.inl (Or.inr hb))))

theorem Forking.parent_entered {v a : Nat} {s₁ : State} (h : Forking Holds s U M ptFrm ptTo)
    (hi : i < 4096) (hent : Entered Holds s U (ptTo + 4 * i) v a n s₁) : Maps s₁ ptFrm M := by
  refine h.parent.congr fun b hb => hent.kept b (h.tables_held hb) ?_
  rcases hb with ⟨h₁, h₂⟩ | ⟨k, c, hc, h₁, h₂⟩
  · have := h.apart
    unfold PTE_L1SIZE at this
    omega
  · have := h.child_table k c hc
    unfold PTE_L1SIZE at this
    omega

/-- The first pass for a table of the parent comes upon a page that has no mapping. -/
theorem Forking.copyPage_faults {t u : Nat} {s₁ : State} (h : Forking Holds s U M ptFrm ptTo)
    (hA : Fresh A Holds) (hi : i < 2048) (hword : s.word (2147483648 + t / 1024) = u * 4096 + 2)
    (hlow : 2147483648 + t / 1024 + 4 ≤ 0x80080000) (hu₁ : 126976 ≤ u) (hu₂ : u < 524288)
    (hno : M.frame u = none) {t' : Nat} (ht' : Managed 1024 t')
    (hent : Entered Holds s U (ptTo + 4 * i) (t' + 481) (P2V t') 1024 s₁) :
    copyPage A ptFrm 0 0xFFFFFFFF pattern2 (2147483648 + t / 1024) (P2V t') i 0 s₁ ≠ .ok s' := by
  intro hrun
  have hto := h.child_lo
  have hlowU : ∀ b, 2147483648 + t / 1024 ≤ b → b < 2147483648 + t / 1024 + 4 → b ∈ U := by
    intro b h₁ h₂
    exact h.held (Or.inl (Or.inl (Or.inl (Or.inl ⟨by omega, by omega⟩))))
  have hP2V := ht'.P2V_eq (by decide)
  have hlo' := ht'.lo
  have hhi' := ht'.hi
  -- the two words of the pass
  have hfrm : s₁.word (2147483648 + t / 1024) = u * 4096 + 2 := by
    rw [← hword]
    exact hent.word_kept hlowU (by omega)
  have hzero : s₁.word (P2V t') = 0 :=
    word_eq_zero fun b h₁ h₂ => hent.clear b h₁ (by omega)
  unfold copyPage at hrun
  dsimp only at hrun
  rw [Nat.mul_zero, add32_of_lt (by omega), add32_of_lt (by omega), Nat.add_zero, Nat.add_zero,
    hfrm, if_neg (by unfold PAGE_L1SIZE; omega),
    if_pos (Or.inl (by unfold ptel2Type; omega))] at hrun
  obtain ⟨s₂, hpage, hcopy⟩ := Res.bind_eq_ok.1 hrun
  rcases hA.newPage_spec hent.holds (fun b h₁ h₂ => Or.inr ⟨h₁, by omega⟩) hpage with hold | hnew
  · rw [hzero] at hold
    exact absurd rfl hold.1
  · obtain ⟨-, f, hf, hent₂⟩ := hnew
    have hfhi := hf.hi
    have hfrm₂ : s₂.word (2147483648 + t / 1024) = u * 4096 + 2 := by
      rw [← hfrm]
      exact hent₂.word_kept (fun b h₁ h₂ => Or.inl (hlowU b h₁ h₂)) (by omega)
    have hdst : ptel2Base (f + 1058) * PAGE_L2SIZE = f := (ptel2_fields hf.aligned).2
    have hsrc : ptel2Base (u * 4096 + 2) * PAGE_L2SIZE = u * 4096 := by
      unfold ptel2Base PAGE_L2SIZE
      omega
    -- the parent's table is as before, and does not map the page at `u * 4096`
    have hmaps : Maps s₂ ptFrm M := by
      refine (h.parent_entered (by omega) hent).congr fun b hb => ?_
      have hbU := h.tables_held hb
      have hout : ¬ (P2V t' ≤ b ∧ b < P2V t' + 1024) := fun hc =>
        Set.disjoint_left.1 hent.free hbU ⟨hc.1, hc.2⟩
      exact hent₂.kept b (Or.inl hbU) (by omega)
    have hwalk : s₂.walk ptFrm (u * 4096 + 4 * 0) = none := by
      rw [Nat.mul_zero, Nat.add_zero, hmaps.walk_eq (by omega)]
      unfold Space.phys
      rw [Nat.mul_div_cancel u (by decide), hno]
      rfl
    have hcell : s₂.cell ptFrm (u * 4096 + 4 * 0) = none := by
      unfold State.cell
      rw [if_neg (by unfold KERNEL_BASE; omega), hwalk]
      rfl
    unfold memcpyPage at hcopy
    rw [hfrm₂, hent₂.entry, hdst, hsrc, if_neg (by omega)] at hcopy
    obtain ⟨s₃, hfirst, -⟩ := loopUp_succ.1 hcopy
    unfold copyWord at hfirst
    rw [hcell] at hfirst
    simp at hfirst

/-- A slot that has a table: a new table for the child, and the pages of the words found. -/
theorem Forking.copySlot_table {t : Nat} (h : Forking Holds s U M ptFrm ptTo) (hA : Fresh A Holds)
    (ht : M.table i = some t)
    (hrun : copySlot A ptFrm ptFrm ptTo 0 0xFFFFFFFF pattern1 pattern2 i s = .ok s') :
    ∃ t' s₁, Managed 1024 t' ∧ Entered Holds s U (ptTo + 4 * i) (t' + 481) (P2V t') 1024 s₁ ∧
      loopUp (copyPage A ptFrm 0 0xFFFFFFFF pattern2 (2147483648 + t / 1024) (P2V t') i) 256 0 s₁ =
        .ok s' := by
  have hi := h.parent.user_table i t ht
  have hok := h.parent.table_ok i t ht
  have hfrm := h.parent.pt_hi
  have hto := h.child_hi
  unfold PTE_L1SIZE at hfrm hto
  have hpar : ∀ b, ptFrm + 4 * i ≤ b → b < ptFrm + 4 * i + 4 → b ∈ U := fun b h₁ h₂ =>
    h.held (Or.inl (Or.inr ⟨by omega, by unfold PTE_L1SIZE; omega⟩))
  have hchi : ∀ b, ptTo + 4 * i ≤ b → b < ptTo + 4 * i + 4 → b ∈ U := fun b h₁ h₂ =>
    h.held (Or.inr ⟨by omega, by unfold PTE_L1SIZE; omega⟩)
  have htype := (ptel1_fields hok.aligned).1
  have hentry : s.word (ptFrm + 4 * i) = t + 481 := by
    rw [h.parent.slot i hi, ht]
    rfl
  unfold copySlot at hrun
  rw [if_neg (by rw [show KERNEL_BASE / PAGE_L1SIZE = 2048 from rfl]; omega)] at hrun
  dsimp only at hrun
  rw [add32_of_lt (by omega), add32_of_lt (by omega), hentry, if_neg (by rw [htype]; decide)] at hrun
  obtain ⟨s₁, htable, hpages⟩ := Res.bind_eq_ok.1 hrun
  rcases hA.newTable_spec h.holds hchi htable with hold | hnew
  · rw [h.child_zero i (by omega)] at hold
    exact absurd rfl hold.1
  · obtain ⟨-, t', ht', hent⟩ := hnew
    have hentry₁ : s₁.word (ptFrm + 4 * i) = t + 481 := by
      rw [(h.parent_entered (by omega) hent).slot i hi, ht]
      rfl
    rw [hentry₁, hent.entry, table_undecoded hok, (ptel1_fields ht'.aligned).2,
      if_pos htype] at hpages
    exact ⟨t', s₁, ht', hent, hpages⟩

/-- The first table of the parent is looked for at a word that names an unmapped page. -/
theorem Forking.copy_faults {t u : Nat} (h : Forking Holds s U M ptFrm ptTo) (hA : Fresh A Holds)
    (ht : M.table i = some t) (hfirst : ∀ k < i, M.table k = none)
    (hword : s.word (2147483648 + t / 1024) = u * 4096 + 2) (hu₁ : 126976 ≤ u) (hu₂ : u < 524288)
    (hno : M.frame u = none) :
    copyMemImg A s ptFrm ptFrm ptTo 0 0xFFFFFFFF pattern1 pattern2 ≠ .ok s' := by
  intro hrun
  have hi := h.parent.user_table i t ht
  have hhi := (h.parent.table_ok i t ht).hi
  have hcount : slotCount 0 0xFFFFFFFF = i + ((4095 - i) + 1) := by
    rw [show slotCount 0 0xFFFFFFFF = 4096 from rfl]
    omega
  unfold copyMemImg at hrun
  rw [hcount, show 0 / PAGE_L1SIZE = 0 from rfl,
    loopUp_skip fun k _ hk => copySlot_empty h.parent (by omega) (hfirst k (by omega)), Nat.zero_add,
    loopUp_succ] at hrun
  obtain ⟨s₂, hslot, -⟩ := hrun
  obtain ⟨t', s₁, ht', hent, hpages⟩ := h.copySlot_table hA ht hslot
  obtain ⟨s₃, hpage, -⟩ := loopUp_succ.1 hpages
  exact h.copyPage_faults hA hi hword (by omega) hu₁ hu₂ hno ht' hent hpage

/-- `_fork` copies the address space exactly where the parent has no level 2 table. -/
theorem fork_copies_iff (h : Forking Holds s U M ptFrm ptTo) (hA : Fresh A Holds) :
    CopyContract A s U M ptFrm ptTo ↔ ∀ i < 2048, M.table i = none := by
  constructor
  · intro hall
    by_contra hex
    push Not at hex
    obtain ⟨k, -, hk⟩ := hex
    -- the first slot that has a table
    obtain ⟨i, hne, hmin⟩ := exists_first (P := fun i => M.table i ≠ none) hk
    cases ht : M.table i with
    | none => exact hne ht
    | some t =>
        obtain ⟨u, hu₁, hu₂, hno⟩ := h.parent.unmapped_page
        have hok := h.parent.table_ok i t ht
        have hlo := hok.lo
        have hhi := hok.hi
        have hlow : AgreeOn lowMemoryᶜ s.mem
            (store32 s.mem (2147483648 + t / 1024) (u * 4096 + 2)) := by
          refine store32_agreeOn fun b hb => ?_
          by_contra hc
          exact hb ⟨by omega, by omega⟩
        obtain ⟨s', hrun, -⟩ := hall _ hlow
        have hword : load32 (store32 s.mem (2147483648 + t / 1024) (u * 4096 + 2))
            (2147483648 + t / 1024) = u * 4096 + 2 := load32_store32_of_lt _ (by omega)
        refine (h.of_low hA hlow).copy_faults hA ht (fun k hk => ?_) hword hu₁ hu₂ hno hrun
        by_contra hc
        exact hmin k hk hc
  · intro hno m hm
    exact (h.of_low hA hm).copy_empty hno

/-! ## A fork with one page -/

section Loses

variable {t t' : Nat} {s₁ : State}

/-- The child's table for the first slot is new, and the address read in place of the parent's leads to
zeros: no page is copied. -/
theorem Forking.copySlot_loses (h : Forking Holds s U M ptFrm ptTo) (ht : M.table 0 = some t)
    (hzero : ∀ b ∈ lowMemory, s.mem b = 0)
    (hent : Entered Holds s U (ptTo + 4 * 0) (t' + 481) (P2V t') 1024 s₁)
    (hnew : newTable A pattern1 (ptTo + 4 * 0) s = .ok s₁) :
    copySlot A ptFrm ptFrm ptTo 0 0xFFFFFFFF pattern1 pattern2 0 s = .ok s₁ := by
  have hok := h.parent.table_ok 0 t ht
  have hlo := hok.lo
  have hhi := hok.hi
  have hfrm := h.parent.pt_hi
  have hto := h.child_hi
  have htolo := h.child_lo
  unfold PTE_L1SIZE at hfrm hto
  have htype := (ptel1_fields hok.aligned).1
  have hword : ∀ u, Maps u ptFrm M → u.word (ptFrm + 4 * 0) = t + 481 := by
    intro u hu
    rw [hu.slot 0 (by decide), ht]
    rfl
  have hlow : ∀ k < 256, s₁.word (2147483648 + t / 1024 + 4 * k) = 0 := by
    intro k hk
    refine word_eq_zero fun b h₁ h₂ => ?_
    have hb : b ∈ lowMemory := ⟨by omega, by omega⟩
    rw [hent.kept b (h.held (Or.inl (Or.inl (Or.inl (Or.inl hb))))) (by omega)]
    exact hzero b hb
  unfold copySlot
  rw [if_neg (by decide)]
  dsimp only
  rw [add32_of_lt (by omega), add32_of_lt (by omega), hword s h.parent,
    if_neg (by rw [htype]; decide), hnew, Res.ok_bind, hword s₁ (h.parent_entered (by decide) hent),
    table_undecoded hok, if_pos htype]
  refine loopUp_id fun k _ hk => ?_
  have hk' : k < 256 := by
    rw [show 0 + PTE_L2SIZE >>> 2 = 256 from rfl] at hk
    exact hk
  unfold copyPage
  dsimp only
  rw [add32_of_lt (by omega), hlow k hk', if_neg (by unfold PAGE_L1SIZE PAGE_L2SIZE; omega)]
  rfl

/-- The new table stays clear while the kernel's slots are copied. -/
theorem Forking.walk_cleared {s' : State} (h : Forking Holds s U M ptFrm ptTo)
    (ht' : Managed 1024 t')
    (hent : Entered Holds s U (ptTo + 4 * 0) (t' + 481) (P2V t') 1024 s₁)
    (hout : ∀ b, b < ptTo + 4 * 2048 ∨ ptTo + 16384 ≤ b → s'.mem b = s₁.mem b) :
    s'.walk ptTo 0 = none := by
  have hP2V := ht'.P2V_eq (by decide)
  have htable : ∀ b, P2V t' ≤ b → b < P2V t' + 1024 → b < ptTo + 4 * 2048 ∨ ptTo + 16384 ≤ b := by
    intro b h₁ h₂
    by_contra hc
    exact Set.disjoint_left.1 hent.free (h.held (Or.inr ⟨by omega, by unfold PTE_L1SIZE; omega⟩))
      ⟨h₁, h₂⟩
  have hslot : s'.word (ptTo + 4 * 0) = t' + 481 := by
    rw [← hent.entry]
    exact load32_ext fun b h₁ h₂ => hout b (by omega)
  have hpage : s'.word (P2V t') = 0 := by
    refine word_eq_zero fun b h₁ h₂ => ?_
    rw [hout b (htable b h₁ (by omega))]
    exact hent.clear b h₁ (by omega)
  obtain ⟨htype, hbase⟩ := ptel1_fields ht'.aligned
  unfold State.walk
  dsimp only
  rw [show 0 / PAGE_L1SIZE = 0 from rfl, hslot, if_pos htype, hbase,
    show 0 % PAGE_L1SIZE / PAGE_L2SIZE = 0 from rfl, Nat.mul_zero, Nat.add_zero, hpage]
  rfl

theorem Forking.copy_loses (h : Forking Holds s U M ptFrm ptTo)
    (ht : M.table 0 = some t) (honly : ∀ k, k ≠ 0 → M.table k = none)
    (hzero : ∀ b ∈ lowMemory, s.mem b = 0) (ht' : Managed 1024 t')
    (hent : Entered Holds s U (ptTo + 4 * 0) (t' + 481) (P2V t') 1024 s₁)
    (hnew : newTable A pattern1 (ptTo + 4 * 0) s = .ok s₁) : ∃ s',
    copyMemImg A s ptFrm ptFrm ptTo 0 0xFFFFFFFF pattern1 pattern2 = .ok s' ∧
    s'.walk ptTo 0 = none := by
  have hfrm := h.parent.pt_hi
  have hto := h.child_hi
  have hapart := h.apart
  unfold PTE_L1SIZE at hfrm hto hapart
  have hmaps := h.parent_entered (by decide) hent
  obtain ⟨s', hrun, hout, -⟩ := @copySlots_kernel A s₁ ptFrm ptTo 2048 2048 (Nat.le_refl _)
    (by decide) hfrm hto hapart
  refine ⟨s', ?_, h.walk_cleared ht' hent hout⟩
  unfold copyMemImg
  rw [show slotCount 0 0xFFFFFFFF = 4095 + 1 from rfl, show 0 / PAGE_L1SIZE = 0 from rfl]
  refine loopUp_succ.2 ⟨s₁, h.copySlot_loses ht hzero hent hnew, ?_⟩
  rw [show 4095 = 2047 + 2048 from rfl,
    loopUp_skip fun k hk₁ hk₂ => copySlot_empty hmaps (by omega) (honly k (by omega))]
  exact hrun

end Loses

theorem forking_onePage : Forking HoldsBelow State.onePage {b | b < 2155880448} Space.onePage
    0x80104000 0x80108000 := by
  have hbase : P2V 0x800000 = 0x80800000 := by decide
  have hframe : P2V 0x801000 = 0x80801000 := by decide
  refine ⟨maps_onePage, by decide, by decide, fun i hi => ?_, by decide, fun i t ht => ?_,
    fun v f hf => ?_, ⟨by decide, by decide, fun b hb => hb⟩, fun b hb => ?_⟩
  · exact State.onePage_word (by omega) (by omega)
  · rw [(Space.onePage_table ht).2, hbase]
    decide
  · rw [(Space.onePage_frame hf).2, hframe]
    decide
  · show b < 2155880448
    rcases hb with (((⟨-, h₂⟩ | ⟨⟨-, h₂⟩ | ⟨i, t, ht, -, h₂⟩⟩) | ⟨v, f, hf, -, h₂⟩) | ⟨-, h₂⟩) | ⟨-, h₂⟩
    · omega
    · omega
    · rw [(Space.onePage_table ht).2, hbase] at h₂
      omega
    · rw [(Space.onePage_frame hf).2, hframe] at h₂
      omega
    · unfold PTE_L1SIZE at h₂
      omega
    · unfold PTE_L1SIZE at h₂
      omega

/-- A process with one page forks while low memory is zero: the child has no page. -/
theorem fork_copies_fails : ∃ s', Fresh bumpAllocators HoldsBelow ∧
    Forking HoldsBelow State.onePage {b | b < 2155880448} Space.onePage 0x80104000 0x80108000 ∧
    copyMemImg bumpAllocators State.onePage 0x80104000 0x80104000 0x80108000 0 0xFFFFFFFF pattern1
      pattern2 = .ok s' ∧
    ¬ Copied Space.onePage {b | b < 2155880448} 0x80104000 0x80108000 State.onePage s' := by
  have hF := forking_onePage
  have hzero : State.onePage.word (0x80108000 + 4 * 0) = 0 :=
    State.onePage_word (by decide) (by decide)
  obtain ⟨s₁, hnew⟩ : ∃ s₁, newTable bumpAllocators pattern1 (0x80108000 + 4 * 0) State.onePage =
      .ok s₁ := by
    unfold newTable
    rw [hzero]
    exact ⟨_, rfl⟩
  rcases bumpAllocators_fresh.newTable_spec hF.holds
    (fun b h₁ h₂ => hF.held (Or.inr ⟨by omega, by unfold PTE_L1SIZE; omega⟩)) hnew with hold | hmade
  · rw [hzero] at hold
    exact absurd rfl hold.1
  · obtain ⟨-, t', ht', hent⟩ := hmade
    have hlow : ∀ b ∈ lowMemory, State.onePage.mem b = 0 := by
      intro b hb
      have h₁ := hb.2
      exact (store32_apply_of_outside (Or.inl (by omega))).trans
        (store32_apply_of_outside (Or.inl (by omega)))
    obtain ⟨s', hrun, hwalk⟩ := hF.copy_loses (t := 0x800000) rfl (fun k hk => if_neg hk) hlow ht'
      hent hnew
    refine ⟨s', bumpAllocators_fresh, hF, hrun, fun hdone => ?_⟩
    have hmapped := hdone.mapped 0 (by decide)
    rw [hwalk, maps_onePage.walk_eq (by decide)] at hmapped
    exact absurd hmapped (by decide)

/-! ## A fork without pages -/

theorem forking_empty : Forking HoldsBelow ⟨fun _ => 0, none, none⟩ {b | b < 2155880448} Space.empty
    0x80104000 0x80108000 := by
  have hnone : ∀ i t, Space.empty.table i ≠ some t := fun i t => Option.some_ne_none t ∘ Eq.symm
  have hbare : ∀ v f, Space.empty.frame v ≠ some f := fun v f => Option.some_ne_none f ∘ Eq.symm
  have hmaps : Maps ⟨fun _ => 0, none, none⟩ 0x80104000 Space.empty :=
    ⟨by decide, by decide, fun _ _ => rfl, fun i _ t ht => absurd ht (hnone i t),
      fun _ _ _ _ _ => rfl, fun i t ht => absurd ht (hnone i t), fun v f hf => absurd hf (hbare v f),
      fun i t ht => absurd ht (hnone i t), fun v f hf => absurd hf (hbare v f),
      fun i _ t ht => absurd ht (hnone i t), fun u _ f hf => absurd hf (hbare u f),
      fun i t _ _ ht => absurd ht (hnone i t), fun i t ht => absurd ht (hnone i t),
      fun v f hf => absurd hf (hbare v f)⟩
  refine ⟨hmaps, by decide, by decide, fun _ _ => rfl, by decide, fun i t ht => absurd ht (hnone i t),
    fun v f hf => absurd hf (hbare v f), ⟨by decide, by decide, fun b hb => hb⟩, fun b hb => ?_⟩
  show b < 2155880448
  rcases hb with (((⟨-, h₂⟩ | ⟨⟨-, h₂⟩ | ⟨i, t, ht, -, -⟩⟩) | ⟨v, f, hf, -, -⟩) | ⟨-, h₂⟩) | ⟨-, h₂⟩
  · omega
  · omega
  · exact absurd ht (hnone i t)
  · exact absurd hf (hbare v f)
  · unfold PTE_L1SIZE at h₂
    omega
  · unfold PTE_L1SIZE at h₂
    omega

theorem fork_copies_iff_sample : CopyContract bumpAllocators ⟨fun _ => 0, none, none⟩
    {b | b < 2155880448} Space.empty 0x80104000 0x80108000 :=
  (fork_copies_iff forking_empty bumpAllocators_fresh).2 fun _ _ => rfl

end Aimv6.Mm
