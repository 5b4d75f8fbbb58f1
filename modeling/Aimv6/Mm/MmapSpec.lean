import Aimv6.Mm.Fresh
import Mathlib.Logic.Function.Basic

/-! # What `mmap` builds

A table that represents a space represents a larger one behind `mmap`: the pages
of the range have frames, new ones of their own and cleared, and nothing that was
in use changes besides the entries.
-/

namespace Aimv6.Mm

open Support

section Update

variable {T : Nat → Option Nat} {i t k l c : Nat}

theorem update_some_cases (h : Function.update T i (some t) k = some c) :
    (k = i ∧ c = t) ∨ (k ≠ i ∧ T k = some c) := by
  by_cases hk : k = i
  · rw [hk, Function.update_self] at h
    exact Or.inl ⟨hk, (Option.some.inj h).symm⟩
  · rw [Function.update_of_ne hk] at h
    exact Or.inr ⟨hk, h⟩

theorem update_some_once (honce : ∀ k l c, T k = some c → T l = some c → k = l)
    (hnew : ∀ k, T k ≠ some t) (hk : Function.update T i (some t) k = some c)
    (hl : Function.update T i (some t) l = some c) : k = l := by
  rcases update_some_cases hk with ⟨hki, hct⟩ | ⟨-, hkc⟩
  · rcases update_some_cases hl with ⟨hli, -⟩ | ⟨-, hlc⟩
    · exact hki.trans hli.symm
    · exact absurd (hct ▸ hlc) (hnew l)
  · rcases update_some_cases hl with ⟨-, hct⟩ | ⟨-, hlc⟩
    · exact absurd (hct ▸ hkc) (hnew k)
    · exact honce k l c hkc hlc

end Update

namespace Space

def bytes (M : Space) (pt : Nat) : Set Nat :=
  M.tables pt ∪ M.frames ∪ Set.Ico pt (pt + PTE_L1SIZE)

def addTable (M : Space) (i t : Nat) : Space := { M with table := Function.update M.table i (some t) }

def addFrame (M : Space) (v f : Nat) : Space := { M with frame := Function.update M.frame v (some f) }

variable {M : Space} {i t v f : Nat}

theorem addTable_same (M : Space) (i t : Nat) : (M.addTable i t).table i = some t :=
  Function.update_self ..

theorem addTable_ne {k : Nat} (h : k ≠ i) : (M.addTable i t).table k = M.table k :=
  Function.update_of_ne h ..

theorem addTable_cases {k c : Nat} (h : (M.addTable i t).table k = some c) :
    (k = i ∧ c = t) ∨ (k ≠ i ∧ M.table k = some c) := update_some_cases h

theorem addFrame_same (M : Space) (v f : Nat) : (M.addFrame v f).frame v = some f :=
  Function.update_self ..

theorem addFrame_ne {u : Nat} (h : u ≠ v) : (M.addFrame v f).frame u = M.frame u :=
  Function.update_of_ne h ..

theorem addFrame_cases {u c : Nat} (h : (M.addFrame v f).frame u = some c) :
    (u = v ∧ c = f) ∨ (u ≠ v ∧ M.frame u = some c) := update_some_cases h

theorem mem_bytes_pt {M : Space} {pt b : Nat} (h₁ : pt ≤ b) (h₂ : b < pt + PTE_L1SIZE) :
    b ∈ M.bytes pt := Or.inr ⟨h₁, h₂⟩

theorem mem_bytes_table {M : Space} {pt i t b : Nat} (ht : M.table i = some t) (h₁ : P2V t ≤ b)
    (h₂ : b < P2V t + 1024) : b ∈ M.bytes pt := Or.inl (Or.inl (Or.inr ⟨i, t, ht, h₁, h₂⟩))

theorem mem_bytes_frame {M : Space} {pt v f b : Nat} (hf : M.frame v = some f) (h₁ : P2V f ≤ b)
    (h₂ : b < P2V f + 4096) : b ∈ M.bytes pt := Or.inl (Or.inr ⟨v, f, hf, h₁, h₂⟩)

end Space

variable {A : Allocators} {Holds : State → Set Nat → Prop} {s s' s₁ s₂ : State} {U U' U₁ U₂ : Set Nat}
  {M M' M₁ M₂ : Space} {pt i t v f : Nat} {R : Nat → Prop}

theorem apart_of_disjoint {a n b m : Nat} (h : Disjoint U (Set.Ico a (a + n))) (hn : 0 < n)
    (hm : 0 < m) (hb : ∀ c, b ≤ c → c < b + m → c ∈ U) : b + m ≤ a ∨ a + n ≤ b := by
  by_contra hc
  have hmax : max a b ∈ U := hb _ (by omega) (by omega)
  exact Set.disjoint_left.1 h hmax ⟨by omega, by omega⟩

section Entering

variable {e w p n : Nat}

theorem Entered.apart_pt (hent : Entered Holds s U e w p n s') (hU : M.bytes pt ⊆ U) (hn : 0 < n) :
    pt + PTE_L1SIZE ≤ p ∨ p + n ≤ pt :=
  apart_of_disjoint hent.free hn (by decide) fun _ h₁ h₂ => hU (Space.mem_bytes_pt h₁ h₂)

theorem Entered.apart_table (hent : Entered Holds s U e w p n s') (hU : M.bytes pt ⊆ U) (hn : 0 < n)
    (ht : M.table i = some t) : P2V t + 1024 ≤ p ∨ p + n ≤ P2V t :=
  apart_of_disjoint hent.free hn (by decide) fun _ h₁ h₂ => hU (Space.mem_bytes_table ht h₁ h₂)

theorem Entered.apart_frame (hent : Entered Holds s U e w p n s') (hU : M.bytes pt ⊆ U) (hn : 0 < n)
    (hf : M.frame v = some f) : P2V f + 4096 ≤ p ∨ p + n ≤ P2V f :=
  apart_of_disjoint hent.free hn (by decide) fun _ h₁ h₂ => hU (Space.mem_bytes_frame hf h₁ h₂)

end Entering

theorem Maps.addTable (h : Maps s pt M) (hU : M.bytes pt ⊆ U) (hi : i < 2048)
    (hno : M.table i = none) (ht : Managed 1024 t)
    (hent : Entered Holds s U (pt + 4 * i) (t + 481) (P2V t) 1024 s') :
    Maps s' pt (M.addTable i t) := by
  have hP2V := ht.P2V_eq (by decide)
  have hpt := hent.apart_pt hU (by decide)
  have hnew : ∀ k, M.table k ≠ some t := by
    intro k hk
    have hsep := hent.apart_table hU (by decide) hk
    omega
  refine { h with
    slot := fun k hk => ?_
    page := fun k hk c hc j hj => ?_
    bare := fun k hk hnone j hj => ?_
    user_table := fun k c hc => ?_
    table_ok := fun k c hc => ?_
    table_once := fun k l c hc hl => ?_
    table_frame := fun k c u g hc hg => ?_
    pt_table := fun k c hc => ?_ }
  · by_cases hki : k = i
    · rw [hki, Space.addTable_same, hent.entry]
      rfl
    · rw [Space.addTable_ne hki, ← h.slot k hk]
      exact hent.word_kept
        (fun b h₁ h₂ => hU (Space.mem_bytes_pt (by omega) (by unfold PTE_L1SIZE; omega))) (by omega)
  · cases Space.addTable_cases hc with
    | inl hnew =>
        obtain ⟨hki, hct⟩ := hnew
        show s'.word (P2V c + 4 * j) = pageEntry (M.frame (256 * k + j))
        rw [hct, hki, h.bare i hi hno j hj]
        exact word_eq_zero fun b h₁ h₂ => hent.clear b (by omega) (by omega)
    | inr hold =>
        show s'.word (P2V c + 4 * j) = pageEntry (M.frame (256 * k + j))
        rw [← h.page k hk c hold.2 j hj]
        have hsep := h.pt_table k c hold.2
        unfold PTE_L1SIZE at hsep
        exact hent.word_kept
          (fun b h₁ h₂ => hU (Space.mem_bytes_table hold.2 (by omega) (by omega))) (by omega)
  · by_cases hki : k = i
    · rw [hki, Space.addTable_same] at hnone
      simp at hnone
    · rw [Space.addTable_ne hki] at hnone
      exact h.bare k hk hnone j hj
  · cases Space.addTable_cases hc with
    | inl hnew => rw [hnew.1]; exact hi
    | inr hold => exact h.user_table k c hold.2
  · cases Space.addTable_cases hc with
    | inl hnew => rw [hnew.2]; exact ht
    | inr hold => exact h.table_ok k c hold.2
  · exact update_some_once h.table_once hnew hc hl
  · cases Space.addTable_cases hc with
    | inl hnew =>
        have hsep := hent.apart_frame hU (by decide) hg
        rw [hP2V, (h.frame_ok u g hg).P2V_eq (by decide)] at hsep
        rw [hnew.2]
        omega
    | inr hold => exact h.table_frame k c u g hold.2 hg
  · cases Space.addTable_cases hc with
    | inl hnew => rw [hnew.2]; exact hpt
    | inr hold => exact h.pt_table k c hold.2

theorem Maps.addFrame {j : Nat} (h : Maps s pt M) (hU : M.bytes pt ⊆ U) (hj : j < 256)
    (ht : M.table i = some t) (hf : Managed 4096 f)
    (hent : Entered Holds s U (P2V t + 4 * j) (f + 1058) (P2V f) 4096 s') :
    Maps s' pt (M.addFrame (256 * i + j) f) := by
  have hi := h.user_table i t ht
  have hok := h.table_ok i t ht
  have htP := hok.P2V_eq (by decide)
  have hfP := hf.P2V_eq (by decide)
  have hpt := hent.apart_pt hU (by decide)
  have hnew : ∀ u, M.frame u ≠ some f := by
    intro u hu
    have hsep := hent.apart_frame hU (by decide) hu
    omega
  have htpt := h.pt_table i t ht
  unfold PTE_L1SIZE at htpt
  refine { h with
    slot := fun k hk => ?_
    page := fun k hk c hc l hl => ?_
    bare := fun k hk hnone l hl => ?_
    user_frame := fun u g hg => ?_
    frame_ok := fun u g hg => ?_
    frame_once := fun u u' g hg hg' => ?_
    table_frame := fun k c u g hc hg => ?_
    pt_frame := fun u g hg => ?_ }
  · show s'.word (pt + 4 * k) = tableEntry (M.table k)
    rw [← h.slot k hk]
    exact hent.word_kept
      (fun b h₁ h₂ => hU (Space.mem_bytes_pt (by omega) (by unfold PTE_L1SIZE; omega))) (by omega)
  · by_cases hkl : 256 * k + l = 256 * i + j
    · have hki : k = i := by omega
      have hlj : l = j := by omega
      rw [hki] at hc
      obtain rfl := Option.some.inj (hc.symm.trans ht)
      rw [hkl, Space.addFrame_same, hlj, hent.entry]
      rfl
    · rw [Space.addFrame_ne hkl, ← h.page k hk c hc l hl]
      have hcok := h.table_ok k c hc
      have hcP := hcok.P2V_eq (by decide)
      have hsep : c = t → k = i := fun hct => h.table_once k i t (hct ▸ hc) ht
      have hc₁ := hcok.aligned
      have ht₁ := hok.aligned
      exact hent.word_kept (fun b h₁ h₂ => hU (Space.mem_bytes_table hc (by omega) (by omega)))
        (by omega)
  · have hki : k ≠ i := fun hc => by
      rw [hc] at hnone
      exact absurd (ht.symm.trans hnone) (by simp)
    rw [Space.addFrame_ne (by omega)]
    exact h.bare k hk hnone l hl
  · cases Space.addFrame_cases hg with
    | inl hnew => omega
    | inr hold => exact h.user_frame u g hold.2
  · cases Space.addFrame_cases hg with
    | inl hnew => rw [hnew.2]; exact hf
    | inr hold => exact h.frame_ok u g hold.2
  · exact update_some_once h.frame_once hnew hg hg'
  · cases Space.addFrame_cases hg with
    | inl hnew =>
        have hsep := hent.apart_table hU (by decide) hc
        rw [hfP, (h.table_ok k c hc).P2V_eq (by decide)] at hsep
        rw [hnew.2]
        omega
    | inr hold => exact h.table_frame k c u g hc hold.2
  · cases Space.addFrame_cases hg with
    | inl hnew => rw [hnew.2]; exact hpt
    | inr hold => exact h.pt_frame u g hold.2

/-! ## Growing spaces -/

/-- From `s`, `U`, `M` the table came to represent `M'` in state `s'`, with frames for pages of `R`
only; new blocks were not in use, and what was in use changed in the tables at most. -/
structure Grown (Holds : State → Set Nat → Prop) (pt : Nat) (R : Nat → Prop) (s : State)
    (U : Set Nat) (M : Space) (s' : State) (U' : Set Nat) (M' : Space) : Prop where
  maps : Maps s' pt M'
  holds : Holds s' U'
  used : U ⊆ U'
  bytes : M'.bytes pt ⊆ U'
  table_old : ∀ i t, M.table i = some t → M'.table i = some t
  frame_old : ∀ v f, M.frame v = some f → M'.frame v = some f
  table_new : ∀ i t, M'.table i = some t → M.table i = some t ∨
    ∀ b, P2V t ≤ b → b < P2V t + 1024 → b ∉ U
  frame_new : ∀ v f, M'.frame v = some f → M.frame v = some f ∨
    (R v ∧ ∀ b, P2V f ≤ b → b < P2V f + 4096 → b ∉ U ∧ s'.mem b = 0)
  kept : ∀ b ∈ U, b ∉ M.tables pt → s'.mem b = s.mem b

theorem Maps.frame_not_table (h : Maps s pt M) (hf : M.frame v = some f) {b : Nat} (h₁ : P2V f ≤ b)
    (h₂ : b < P2V f + 4096) : b ∉ M.tables pt := by
  intro hb
  have hfP := (h.frame_ok v f hf).P2V_eq (by decide)
  rcases hb with ⟨h₃, h₄⟩ | ⟨i, t, ht, h₃, h₄⟩
  · have := h.pt_frame v f hf
    unfold PTE_L1SIZE at this
    omega
  · have := h.table_frame i t v f ht hf
    have htP := (h.table_ok i t ht).P2V_eq (by decide)
    omega

namespace Grown

theorem refl (h : Maps s pt M) (hU : Holds s U) (hbytes : M.bytes pt ⊆ U) :
    Grown Holds pt R s U M s U M :=
  ⟨h, hU, fun _ hb => hb, hbytes, fun _ _ ht => ht, fun _ _ hf => hf, fun _ _ ht => Or.inl ht,
    fun _ _ hf => Or.inl hf, fun _ _ _ => rfl⟩

theorem trans (h : Grown Holds pt R s U M s₁ U₁ M₁) (h' : Grown Holds pt R s₁ U₁ M₁ s₂ U₂ M₂) :
    Grown Holds pt R s U M s₂ U₂ M₂ := by
  refine ⟨h'.maps, h'.holds, h.used.trans h'.used, h'.bytes, fun i t ht => ?_, fun v f hf => ?_,
    fun i t ht => ?_, fun v f hf => ?_, fun b hb hno => ?_⟩
  · exact h'.table_old i t (h.table_old i t ht)
  · exact h'.frame_old v f (h.frame_old v f hf)
  · cases h'.table_new i t ht with
    | inl hold => exact h.table_new i t hold
    | inr hnew => exact Or.inr fun b h₁ h₂ hb => hnew b h₁ h₂ (h.used hb)
  · cases h'.frame_new v f hf with
    | inr hnew =>
        refine Or.inr ⟨hnew.1, fun b h₁ h₂ => ?_⟩
        obtain ⟨hfree, hzero⟩ := hnew.2 b h₁ h₂
        exact ⟨fun hb => hfree (h.used hb), hzero⟩
    | inl hold =>
        cases h.frame_new v f hold with
        | inl hfirst => exact Or.inl hfirst
        | inr hnew =>
            refine Or.inr ⟨hnew.1, fun b h₁ h₂ => ?_⟩
            obtain ⟨hfree, hzero⟩ := hnew.2 b h₁ h₂
            refine ⟨hfree, ?_⟩
            rw [h'.kept b (h.bytes (Space.mem_bytes_frame hold h₁ h₂))
              (h.maps.frame_not_table hold h₁ h₂)]
            exact hzero
  · have hno₁ : b ∉ M₁.tables pt := by
      rintro (hpt | ⟨i, t, ht, h₁, h₂⟩)
      · exact hno (Or.inl hpt)
      · cases h.table_new i t ht with
        | inl hold => exact hno (Or.inr ⟨i, t, hold, h₁, h₂⟩)
        | inr hnew => exact hnew b h₁ h₂ hb
    rw [h'.kept b (h.used hb) hno₁]
    exact h.kept b hb hno

theorem table (h : Maps s pt M) (hbytes : M.bytes pt ⊆ U) (hi : i < 2048) (hno : M.table i = none)
    (ht : Managed 1024 t) (hent : Entered Holds s U (pt + 4 * i) (t + 481) (P2V t) 1024 s') :
    Grown Holds pt R s U M s' (U ∪ Set.Ico (P2V t) (P2V t + 1024)) (M.addTable i t) := by
  refine ⟨h.addTable hbytes hi hno ht hent, hent.holds, Set.subset_union_left, ?_, fun k c hc => ?_,
    fun _ _ hf => hf, fun k c hc => ?_, fun _ _ hf => Or.inl hf, fun b hb hnot => ?_⟩
  · rintro b (((hpt | ⟨k, c, hc, h₁, h₂⟩) | hf) | hpt)
    · exact Or.inl (hbytes (Or.inl (Or.inl (Or.inl hpt))))
    · cases Space.addTable_cases hc with
      | inl hnew =>
          rw [hnew.2] at h₁ h₂
          exact Or.inr ⟨h₁, h₂⟩
      | inr hold => exact Or.inl (hbytes (Space.mem_bytes_table hold.2 h₁ h₂))
    · exact Or.inl (hbytes (Or.inl (Or.inr hf)))
    · exact Or.inl (hbytes (Or.inr hpt))
  · have hk : k ≠ i := fun hk => by
      rw [hk, hno] at hc
      simp at hc
    rw [Space.addTable_ne hk]
    exact hc
  · cases Space.addTable_cases hc with
    | inl hnew =>
        rw [hnew.2]
        exact Or.inr fun b h₁ h₂ hb => Set.disjoint_left.1 hent.free hb ⟨h₁, h₂⟩
    | inr hold => exact Or.inl hold.2
  · apply hent.kept b hb
    by_contra hc
    exact hnot (Or.inl ⟨by omega, by omega⟩)

theorem frame {j : Nat} (h : Maps s pt M) (hbytes : M.bytes pt ⊆ U) (hj : j < 256)
    (ht : M.table i = some t) (hno : M.frame (256 * i + j) = none) (hR : R (256 * i + j))
    (hf : Managed 4096 f)
    (hent : Entered Holds s U (P2V t + 4 * j) (f + 1058) (P2V f) 4096 s') :
    Grown Holds pt R s U M s' (U ∪ Set.Ico (P2V f) (P2V f + 4096))
      (M.addFrame (256 * i + j) f) := by
  refine ⟨h.addFrame hbytes hj ht hf hent, hent.holds, Set.subset_union_left, ?_,
    fun _ _ hc => hc, fun u g hg => ?_, fun _ _ hc => Or.inl hc, fun u g hg => ?_,
    fun b hb hnot => ?_⟩
  · rintro b ((htab | ⟨u, g, hg, h₁, h₂⟩) | hpt)
    · exact Or.inl (hbytes (Or.inl (Or.inl htab)))
    · cases Space.addFrame_cases hg with
      | inl hnew =>
          rw [hnew.2] at h₁ h₂
          exact Or.inr ⟨h₁, h₂⟩
      | inr hold => exact Or.inl (hbytes (Space.mem_bytes_frame hold.2 h₁ h₂))
    · exact Or.inl (hbytes (Or.inr hpt))
  · have hu : u ≠ 256 * i + j := fun hu => by
      rw [hu, hno] at hg
      simp at hg
    rw [Space.addFrame_ne hu]
    exact hg
  · cases Space.addFrame_cases hg with
    | inl hnew =>
        rw [hnew.1, hnew.2]
        exact Or.inr ⟨hR, fun b h₁ h₂ =>
          ⟨fun hb => Set.disjoint_left.1 hent.free hb ⟨h₁, h₂⟩, hent.clear b h₁ h₂⟩⟩
    | inr hold => exact Or.inl hold.2
  · apply hent.kept b hb
    by_contra hc
    exact hnot (Or.inr ⟨i, t, ht, by omega, by omega⟩)

end Grown

/-! ## The loops -/

def InRange (start finish v : Nat) : Prop := start ≤ 4096 * v ∧ 4096 * v < finish

section Loops

variable {start finish : Nat}

theorem Fresh.mmapPage_spec {j : Nat} (hA : Fresh A Holds) (h : Maps s pt M) (hU : Holds s U)
    (hbytes : M.bytes pt ⊆ U) (hj : j < 256) (ht : M.table i = some t)
    (hrun : mmapPage A start finish pattern2 (P2V t) i j s = .ok s') :
    ∃ U' M', Grown Holds pt (InRange start finish) s U M s' U' M' ∧ M'.table = M.table ∧
      (InRange start finish (256 * i + j) → M'.frame (256 * i + j) ≠ none) := by
  have hok := h.table_ok i t ht
  have hi := h.user_table i t ht
  have hP2V := hok.P2V_eq (by decide)
  have hhi := hok.hi
  have htemp : i * PAGE_L1SIZE + j * PAGE_L2SIZE = 4096 * (256 * i + j) := by
    unfold PAGE_L1SIZE PAGE_L2SIZE
    omega
  unfold mmapPage at hrun
  dsimp only at hrun
  rw [htemp, add32_of_lt (by omega)] at hrun
  by_cases hout : 4096 * (256 * i + j) < start ∨ 4096 * (256 * i + j) ≥ finish
  · rw [if_pos hout] at hrun
    obtain rfl := Except.ok.inj hrun
    refine ⟨U, M, Grown.refl h hU hbytes, rfl, fun hin => ?_⟩
    unfold InRange at hin
    omega
  · rw [if_neg hout] at hrun
    have hword := h.page i hi t ht j hj
    have haligned : ∀ f, M.frame (256 * i + j) = some f → f % 4096 = 0 := fun f hf =>
      (h.frame_ok _ f hf).aligned
    cases hA.newPage_spec hU (fun b h₁ h₂ => hbytes (Space.mem_bytes_table ht (by omega) (by omega)))
      hrun with
    | inl hold =>
        rw [hold.2]
        rw [hword, ne_eq, pageEntry_type haligned] at hold
        exact ⟨U, M, Grown.refl h hU hbytes, rfl, fun _ => hold.1⟩
    | inr hnew =>
        rw [hword, pageEntry_type haligned] at hnew
        obtain ⟨hno, f, hf, hent⟩ := hnew
        refine ⟨_, _, Grown.frame h hbytes hj ht hno ⟨by omega, by omega⟩ hf hent, rfl, fun _ => ?_⟩
        rw [Space.addFrame_same]
        simp

theorem Fresh.mmapPages_spec (hA : Fresh A Holds) (h : Maps s pt M) (hU : Holds s U)
    (hbytes : M.bytes pt ⊆ U) (ht : M.table i = some t)
    (hrun : loopUp (mmapPage A start finish pattern2 (P2V t) i) 256 0 s = .ok s') :
    ∃ U' M', Grown Holds pt (InRange start finish) s U M s' U' M' ∧ M'.table = M.table ∧
      ∀ j < 256, InRange start finish (256 * i + j) → M'.frame (256 * i + j) ≠ none := by
  have hall := loopUp_invariant
    (I := fun k u => ∃ U' M', Grown Holds pt (InRange start finish) s U M u U' M' ∧
      M'.table = M.table ∧
      ∀ j < k, InRange start finish (256 * i + j) → M'.frame (256 * i + j) ≠ none) (i := 0) (n := 256)
    ?_ ⟨U, M, Grown.refl h hU hbytes, rfl, fun j hj => absurd hj (Nat.not_lt_zero j)⟩ hrun
  · exact hall
  · intro k u u' _ hk hI hstep
    obtain ⟨U₁, M₁, hg, htab, hdone⟩ := hI
    obtain ⟨U₂, M₂, hg', htab', hnow⟩ := hA.mmapPage_spec hg.maps hg.holds hg.bytes (by omega)
      (by rw [htab]; exact ht) hstep
    refine ⟨U₂, M₂, hg.trans hg', htab'.trans htab, fun j hj hin => ?_⟩
    by_cases hjk : j = k
    · rw [hjk] at hin ⊢
      exact hnow hin
    · intro hnone
      cases hf : M₁.frame (256 * i + j) with
      | none => exact hdone j (by omega) hin hf
      | some f =>
          have := hg'.frame_old _ f hf
          rw [hnone] at this
          simp at this

theorem Fresh.mmapSlot_spec (hA : Fresh A Holds) (h : Maps s pt M) (hU : Holds s U)
    (hbytes : M.bytes pt ⊆ U) (hi : i < 2048)
    (hrun : mmapSlot A pt start finish pattern1 pattern2 i s = .ok s') :
    ∃ U' M', Grown Holds pt (InRange start finish) s U M s' U' M' ∧
      ∀ j < 256, InRange start finish (256 * i + j) → M'.frame (256 * i + j) ≠ none := by
  have hpt := h.pt_hi
  unfold PTE_L1SIZE at hpt
  have haligned : ∀ t, M.table i = some t → t % 1024 = 0 := fun t ht => (h.table_ok i t ht).aligned
  unfold mmapSlot at hrun
  rw [add32_of_lt (by omega)] at hrun
  obtain ⟨u, htable, hpages⟩ := Res.bind_eq_ok.1 hrun
  rw [show (PTE_L2SIZE >>> 2 : Nat) = 256 from rfl] at hpages
  cases hA.newTable_spec hU (fun b h₁ h₂ => hbytes (Space.mem_bytes_pt (by omega)
    (by unfold PTE_L1SIZE; omega))) htable with
  | inl hold =>
      obtain ⟨htype, hsame⟩ := hold
      rw [hsame] at hpages
      rw [h.slot i hi, ne_eq, tableEntry_type haligned] at htype
      cases ht : M.table i with
      | none => exact absurd ht htype
      | some t =>
          have hbase : P2V (ptel1Base (s.word (pt + 4 * i)) * PTE_L2SIZE) = P2V t := by
            rw [h.slot i hi, ht, show tableEntry (some t) = t + 481 from rfl,
              (ptel1_fields (haligned t ht)).2]
          rw [hbase] at hpages
          obtain ⟨U', M', hg, -, hdone⟩ := hA.mmapPages_spec h hU hbytes ht hpages
          exact ⟨U', M', hg, hdone⟩
  | inr hnew =>
      obtain ⟨htype, t, ht, hent⟩ := hnew
      rw [h.slot i hi, tableEntry_type haligned] at htype
      have hg := @Grown.table Holds s u U M pt i t (InRange start finish) h hbytes hi htype ht hent
      have hbase : P2V (ptel1Base (u.word (pt + 4 * i)) * PTE_L2SIZE) = P2V t := by
        rw [hent.entry, (ptel1_fields ht.aligned).2]
      rw [hbase] at hpages
      obtain ⟨U', M', hg', -, hdone⟩ := hA.mmapPages_spec hg.maps hg.holds hg.bytes
        (Space.addTable_same M i t) hpages
      exact ⟨U', M', hg.trans hg', hdone⟩

theorem Fresh.mmap_spec (hA : Fresh A Holds) (h : Maps s pt M) (hU : Holds s U)
    (hbytes : M.bytes pt ⊆ U) (hpos : 0 < finish) (hle : finish ≤ KERNEL_BASE)
    (hrun : mmap A s pt start finish pattern1 pattern2 = .ok s') :
    ∃ U' M', Grown Holds pt (InRange start finish) s U M s' U' M' ∧
      ∀ v, InRange start finish v → M'.frame v ≠ none := by
  unfold KERNEL_BASE at hle
  have hcount : slotCount start finish = (finish - 1) / 1048576 + 1 - start / 1048576 := by
    unfold slotCount PAGE_L1SIZE
    rw [show sub32 finish 1 = finish - 1 by unfold sub32; omega]
  have hall := loopUp_invariant
    (I := fun k u => ∃ U' M', Grown Holds pt (InRange start finish) s U M u U' M' ∧
      ∀ v, v < 256 * k → InRange start finish v → M'.frame v ≠ none)
    (i := start / PAGE_L1SIZE) (n := slotCount start finish) ?_
    ⟨U, M, Grown.refl h hU hbytes, fun v hv hin => ?_⟩ hrun
  · obtain ⟨U', M', hg, hdone⟩ := hall
    refine ⟨U', M', hg, fun v hin => hdone v ?_ hin⟩
    rw [hcount]
    unfold InRange at hin
    unfold PAGE_L1SIZE
    omega
  · intro k u u' h₁ h₂ hI hstep
    rw [hcount] at h₂
    unfold PAGE_L1SIZE at h₁ h₂
    obtain ⟨U₁, M₁, hg, hdone⟩ := hI
    obtain ⟨U₂, M₂, hg', hnow⟩ := hA.mmapSlot_spec hg.maps hg.holds hg.bytes (by omega) hstep
    refine ⟨U₂, M₂, hg.trans hg', fun v hv hin hnone => ?_⟩
    by_cases hvk : v < 256 * k
    · cases hf : M₁.frame v with
      | none => exact hdone v hvk hin hf
      | some f =>
          have := hg'.frame_old _ f hf
          rw [hnone] at this
          simp at this
    · have hv' : 256 * k + v % 256 = v := by omega
      rw [← hv'] at hin hnone
      exact hnow _ (by omega) hin hnone
  · unfold InRange at hin
    unfold PAGE_L1SIZE at hv
    omega

/-- The upper half of a table is no part of the tables that `mmap` writes. -/
theorem Maps.upper_not_table (h : Maps s pt M) {b : Nat} (h₁ : pt + 8192 ≤ b)
    (h₂ : b < pt + PTE_L1SIZE) : b ∉ M.tables pt := by
  rintro (⟨-, hlt⟩ | ⟨i, t, ht, h₃, h₄⟩)
  · omega
  · have := h.pt_table i t ht
    omega

end Loops

end Aimv6.Mm
