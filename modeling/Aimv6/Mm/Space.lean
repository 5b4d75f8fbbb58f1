import Aimv6.Mm.Mmap

/-! # Address spaces

What a user half that `mmap` built means: which slots have a level 2 table,
which pages have a frame, and where these lie. A table in memory represents such
a space; the walk of the memory management unit then computes it.
-/

namespace Aimv6.Mm

open Support

/-- The user half of an address space, by physical addresses. -/
structure Space where
  /-- the level 2 table of a 1 MiB slot -/
  table : Nat → Option Nat
  /-- the frame of a page, by page number -/
  frame : Nat → Option Nat

namespace Space

def phys (M : Space) (va : Nat) : Option Nat := (M.frame (va / 4096)).map fun f => f + va % 4096

def empty : Space := ⟨fun _ => none, fun _ => none⟩

/-- The bytes of the tables, at their kernel addresses. -/
def tables (M : Space) (pt : Nat) : Set Nat :=
  {b | (pt ≤ b ∧ b < pt + 8192) ∨ ∃ i t, M.table i = some t ∧ P2V t ≤ b ∧ b < P2V t + 1024}

/-- The bytes of the frames, at their kernel addresses. -/
def frames (M : Space) : Set Nat := {b | ∃ v f, M.frame v = some f ∧ P2V f ≤ b ∧ b < P2V f + 4096}

end Space

def tableEntry : Option Nat → Nat
  | none => 0
  | some t => t + 481

def pageEntry : Option Nat → Nat
  | none => 0
  | some f => f + 1058

/-- A block of `n` bytes, aligned to `n`, from memory that `init_pspace` manages. -/
structure Managed (n p : Nat) : Prop where
  aligned : p % n = 0
  lo : 0x800000 ≤ p
  hi : p + n ≤ 0x1f000000

/-- The table at `pt` has the user half `M`, as `mmap` builds it. -/
structure Maps (s : State) (pt : Nat) (M : Space) : Prop where
  /-- the first table lies at `PT_OFFSET` -/
  pt_lo : 0x80100000 ≤ pt
  pt_hi : pt + PTE_L1SIZE ≤ 4294967296
  slot : ∀ i < 2048, s.word (pt + 4 * i) = tableEntry (M.table i)
  page : ∀ i < 2048, ∀ t, M.table i = some t → ∀ j < 256,
    s.word (P2V t + 4 * j) = pageEntry (M.frame (256 * i + j))
  bare : ∀ i < 2048, M.table i = none → ∀ j < 256, M.frame (256 * i + j) = none
  user_table : ∀ i t, M.table i = some t → i < 2048
  user_frame : ∀ v f, M.frame v = some f → v < 524288
  table_ok : ∀ i t, M.table i = some t → Managed 1024 t
  frame_ok : ∀ v f, M.frame v = some f → Managed 4096 f
  table_once : ∀ i k t, M.table i = some t → M.table k = some t → i = k
  frame_once : ∀ u v f, M.frame u = some f → M.frame v = some f → u = v
  table_frame : ∀ i t v f, M.table i = some t → M.frame v = some f → t + 1024 ≤ f ∨ f + 4096 ≤ t
  pt_table : ∀ i t, M.table i = some t → pt + PTE_L1SIZE ≤ P2V t ∨ P2V t + 1024 ≤ pt
  pt_frame : ∀ v f, M.frame v = some f → pt + PTE_L1SIZE ≤ P2V f ∨ P2V f + 4096 ≤ pt

theorem Managed.P2V_eq {n p : Nat} (h : Managed n p) (hn : 0 < n) : P2V p = p + 2147483648 := by
  have hhi := h.hi
  exact P2V_of_lt (by omega)

theorem tableEntry_type {o : Option Nat} (h : ∀ t, o = some t → t % 1024 = 0) :
    ptel1Type (tableEntry o) = 0 ↔ o = none := by
  cases o with
  | none => simp [tableEntry, ptel1Type]
  | some t =>
      have := (ptel1_fields (h t rfl)).1
      simp [tableEntry, this]

theorem pageEntry_type {o : Option Nat} (h : ∀ f, o = some f → f % 4096 = 0) :
    ptel2Type (pageEntry o) = 0 ↔ o = none := by
  cases o with
  | none => simp [pageEntry, ptel2Type]
  | some f =>
      have := (ptel2_fields (h f rfl)).1
      simp [pageEntry, this]

namespace Maps

variable {s s' : State} {pt : Nat} {M : Space}

theorem congr (h : Maps s pt M) (hag : AgreeOn (M.tables pt) s.mem s'.mem) : Maps s' pt M := by
  refine { h with slot := fun i hi => ?_, page := fun i hi t ht j hj => ?_ }
  · rw [← h.slot i hi]
    exact load32_congr hag fun b h₁ h₂ => Or.inl ⟨by omega, by omega⟩
  · rw [← h.page i hi t ht j hj]
    exact load32_congr hag fun b h₁ h₂ => Or.inr ⟨i, t, ht, by omega, by omega⟩

theorem walk_eq (h : Maps s pt M) {va : Nat} (hva : va < 2147483648) :
    s.walk pt va = M.phys va := by
  have hi : va / 1048576 < 2048 := by omega
  have hj : va % 1048576 / 4096 < 256 := by omega
  have hv : 256 * (va / 1048576) + va % 1048576 / 4096 = va / 4096 := by omega
  unfold State.walk Space.phys PAGE_L1SIZE PAGE_L2SIZE
  dsimp only
  rw [h.slot _ hi]
  cases ht : M.table (va / 1048576) with
  | none =>
      have hbare := h.bare _ hi ht _ hj
      rw [hv] at hbare
      rw [hbare]
      rfl
  | some t =>
      obtain ⟨htype, hbase⟩ := ptel1_fields (h.table_ok _ t ht).aligned
      have hword := h.page _ hi t ht _ hj
      rw [hv] at hword
      rw [show tableEntry (some t) = t + 481 from rfl, if_pos htype, hbase, hword]
      cases hf : M.frame (va / 4096) with
      | none => rfl
      | some f =>
          obtain ⟨hftype, hfbase⟩ := ptel2_fields (h.frame_ok _ f hf).aligned
          unfold PAGE_L2SIZE at hfbase
          rw [show pageEntry (some f) = f + 1058 from rfl, hftype, if_neg (by decide),
            if_neg (by decide), hfbase]
          rfl

end Maps

/-! ## A space with one page -/

/-- Page 0 alone is mapped, to the frame at `0x801000`. -/
def Space.onePage : Space :=
  ⟨fun i => if i = 0 then some 0x800000 else none, fun v => if v = 0 then some 0x801000 else none⟩

/-- The table at `0x80104000` with that space, in memory that is empty otherwise. -/
def State.onePage : State :=
  ((⟨fun _ => 0, none, none⟩ : State).setWord 0x80104000 8389089).setWord 0x80800000 8393762

theorem State.onePage_word {a : Nat} (h₁ : 0x80104000 + 4 ≤ a ∨ a + 4 ≤ 0x80104000)
    (h₂ : 0x80800000 + 4 ≤ a ∨ a + 4 ≤ 0x80800000) : State.onePage.word a = 0 :=
  (load32_store32_ne _ h₂).trans ((load32_store32_ne _ h₁).trans rfl)

theorem State.onePage_slot : State.onePage.word 0x80104000 = 8389089 :=
  (load32_store32_ne _ (by decide)).trans (load32_store32_of_lt _ (by decide))

theorem State.onePage_page : State.onePage.word 0x80800000 = 8393762 :=
  load32_store32_of_lt _ (by decide)

theorem Space.onePage_table {i t : Nat} (h : Space.onePage.table i = some t) :
    i = 0 ∧ t = 0x800000 := by
  unfold Space.onePage at h
  dsimp only at h
  split at h
  · exact ⟨by assumption, (Option.some.inj h).symm⟩
  · simp at h

theorem Space.onePage_frame {v f : Nat} (h : Space.onePage.frame v = some f) :
    v = 0 ∧ f = 0x801000 := by
  unfold Space.onePage at h
  dsimp only at h
  split at h
  · exact ⟨by assumption, (Option.some.inj h).symm⟩
  · simp at h

theorem maps_onePage : Maps State.onePage 0x80104000 Space.onePage := by
  have hbase : P2V 0x800000 = 0x80800000 := by decide
  have hframe : P2V 0x801000 = 0x80801000 := by decide
  refine ⟨by decide, by decide, fun i _ => ?_, fun i _ t ht j _ => ?_, fun i _ hi j hj => ?_,
    fun i t ht => ?_, fun v f hf => ?_, fun i t ht => ?_, fun v f hf => ?_, fun i k t hi hk => ?_,
    fun u v f hu hv => ?_, fun i t v f ht hf => ?_, fun i t ht => ?_, fun v f hf => ?_⟩
  · by_cases hi : i = 0
    · rw [hi, Nat.mul_zero, Nat.add_zero, State.onePage_slot]
      rfl
    · have hnone : Space.onePage.table i = none := if_neg hi
      rw [hnone, State.onePage_word (by omega) (by omega)]
      rfl
  · obtain ⟨rfl, rfl⟩ := Space.onePage_table ht
    rw [hbase]
    by_cases hj : j = 0
    · rw [hj, Nat.mul_zero, Nat.add_zero, State.onePage_page]
      rfl
    · have hnone : Space.onePage.frame (256 * 0 + j) = none := if_neg (by omega)
      rw [hnone, State.onePage_word (by omega) (by omega)]
      rfl
  · have hne : i ≠ 0 := by
      rintro rfl
      exact absurd hi (by decide)
    exact if_neg (by omega)
  · obtain ⟨rfl, -⟩ := Space.onePage_table ht
    decide
  · obtain ⟨rfl, -⟩ := Space.onePage_frame hf
    decide
  · obtain ⟨-, rfl⟩ := Space.onePage_table ht
    exact ⟨by decide, by decide, by decide⟩
  · obtain ⟨-, rfl⟩ := Space.onePage_frame hf
    exact ⟨by decide, by decide, by decide⟩
  · rw [(Space.onePage_table hi).1, (Space.onePage_table hk).1]
  · rw [(Space.onePage_frame hu).1, (Space.onePage_frame hv).1]
  · rw [(Space.onePage_table ht).2, (Space.onePage_frame hf).2]
    decide
  · rw [(Space.onePage_table ht).2, hbase]
    decide
  · rw [(Space.onePage_frame hf).2, hframe]
    decide

end Aimv6.Mm
