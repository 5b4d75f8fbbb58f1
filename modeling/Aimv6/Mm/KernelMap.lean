import Aimv6.Mm.Pte

/-! # The kernel's mapping

`mmu_low.c` and `mmu_high.c`: the table that maps the memory twice and a number
of sections elsewhere, and that loses its lower half once the kernel runs above
`KERNEL_BASE`. `PT0_BASE` and `PT1_BASE` are one table. What the page allocator
manages is then reached at one address only.
-/

namespace Aimv6.Mm

open Support

def PT0_BASE : Nat := 0x100000

def PT1_BASE : Nat := 0x100000

def PT_OFFSET : Nat := 0x00100000

/-- `page_table` of `init.c` -/
def pageTable : Nat := KERNEL_BASE + PT_OFFSET

/-- `(i << 20) | (0 << 17) | (1 << 16) | (0b10 << 10) | 0b00010` -/
def sectionEntry (i : Nat) : Nat := (i <<< 20) ||| (0 <<< 17) ||| (1 <<< 16) ||| (0b10 <<< 10) ||| 0b00010

/-- The slots that get a section of their own, and its number: devices, the two stacks, and the
interrupt table. -/
def ownSections : List (Nat × Nat) :=
  [(0xE00, 0xE00), (0xE01, 0xE01), (0xE10, 0xE10), (0xE20, 0xE20), (0xE40, 0xE40), (0xF80, 0xF80),
    (0xF88, 0xF88), (0xF89, 0xF89), (0xF8F, 0xF8F), (0xFC0, 0xFC0), (0xD0F, 0x1FE),
    (0xDFF, 0x1FF), (0xFFF, 0x004)]

namespace State

def setPhys (s : State) (a v : Nat) : State := s.setWord (P2V a) v

def preparePageTable (s : State) : State :=
  let s := countUp (fun i s => (s.setPhys (PT1_BASE + 4 * i) 0).setPhys (PT0_BASE + 4 * i) 0) 0xFFF s
  let s := countUp (fun i s => (s.setPhys (PT0_BASE + 4 * i) (sectionEntry i)).setPhys
    (PT1_BASE + 4 * (i + 0x800)) (sectionEntry i)) 0x800 s
  ownSections.foldl (fun s r => s.setPhys (PT1_BASE + 4 * r.1) (sectionEntry r.2)) s

def mmuHighMain (s : State) : State :=
  countUp (fun i s => s.setWord (pageTable + 4 * i) 0) (KERNEL_BASE >>> 20) s

/-- Entry `i` of the first page table. -/
def bootEntry (s : State) (i : Nat) : Nat := s.word (pageTable + 4 * i)

theorem bootEntry_setPhys {s : State} {i k v : Nat} (hi : i < 4096)
    (hv : v < 4294967296) :
    (s.setPhys (PT1_BASE + 4 * i) v).bootEntry k = if k = i then v else s.bootEntry k := by
  have haddr : P2V (PT1_BASE + 4 * i) = pageTable + 4 * i := by
    unfold PT1_BASE pageTable KERNEL_BASE PT_OFFSET
    rw [P2V_of_lt (by omega)]
    omega
  unfold setPhys bootEntry
  rw [haddr]
  split
  · next h =>
      rw [h]
      exact load32_store32_of_lt _ hv
  · next h => exact load32_store32_ne _ (by omega)

theorem bootEntry_setWord {s : State} {i k v : Nat} (hv : v < 4294967296) :
    (s.setWord (pageTable + 4 * i) v).bootEntry k = if k = i then v else s.bootEntry k := by
  unfold bootEntry
  split
  · next h =>
      rw [h]
      exact load32_store32_of_lt _ hv
  · next h => exact load32_store32_ne _ (by omega)

end State

theorem sectionEntry_eq (i : Nat) : sectionEntry i = i * 1048576 + 67586 := by
  unfold sectionEntry
  rw [Nat.or_assoc, Nat.or_assoc, Nat.or_assoc, Nat.shiftLeft_eq]
  have hlow : 0 <<< 17 ||| (1 <<< 16 ||| (0b10 <<< 10 ||| 0b00010)) = 67586 := by decide
  have hor := Nat.two_pow_add_eq_or_of_lt (i := 20) (b := 67586) (by decide) i
  rw [hlow, Nat.mul_comm, ← hor, Nat.mul_comm]

theorem sectionEntry_lt {i : Nat} (h : i < 4096) : sectionEntry i < 4294967296 := by
  rw [sectionEntry_eq]
  omega

/-! ## The entries -/

/-- The section that slot `i` has once both halves are made: its own, or the memory in order. -/
def bootSection (i : Nat) : Nat :=
  match ownSections.lookup i with
  | some b => b
  | none => i % 0x800

theorem ownSections_small : ∀ r ∈ ownSections, r.1 < 4096 ∧ 0xD00 ≤ r.1 ∧ r.2 < 4096 ∧
    (r.2 < 8 ∨ 0x1F0 ≤ r.2) := by
  decide

theorem ownSections_nodup : (ownSections.map Prod.fst).Nodup := by
  decide

namespace State

theorem bootEntry_foldl {l : List (Nat × Nat)} (hl : ∀ r ∈ l, r.1 < 4096 ∧ r.2 < 4096)
    (hnodup : (l.map Prod.fst).Nodup) (s : State) (k : Nat) :
    (l.foldl (fun s r => s.setPhys (PT1_BASE + 4 * r.1) (sectionEntry r.2)) s).bootEntry k =
      match l.lookup k with
      | some b => sectionEntry b
      | none => s.bootEntry k := by
  induction l generalizing s with
  | nil => rfl
  | cons r l ih =>
      obtain ⟨hr₁, hr₂⟩ := hl r (List.mem_cons_self ..)
      obtain ⟨hnew, hrest⟩ := List.nodup_cons.1 hnodup
      rw [List.foldl_cons, ih (fun r' hr' => hl r' (List.mem_cons_of_mem _ hr')) hrest,
        bootEntry_setPhys hr₁ (sectionEntry_lt hr₂), List.lookup_cons]
      by_cases hk : k = r.1
      · have hnone : l.lookup k = none := by
          rw [List.lookup_eq_none_iff]
          intro r' hr'
          rw [hk]
          have hne : r.1 ≠ r'.1 := fun hc => hnew (hc ▸ List.mem_map_of_mem hr')
          exact bne_iff_ne.2 hne
        rw [hnone, if_pos hk, hk, beq_self_eq_true]
      · rw [beq_false_of_ne hk, if_neg hk]

theorem bootEntry_prepare (s : State) {k : Nat} (hk : k < 4096) :
    s.preparePageTable.bootEntry k = sectionEntry (bootSection k) := by
  unfold preparePageTable
  dsimp only
  rw [bootEntry_foldl (fun r hr => ⟨(ownSections_small r hr).1, (ownSections_small r hr).2.2.1⟩)
    ownSections_nodup]
  unfold bootSection
  cases hown : ownSections.lookup k with
  | some b => rfl
  | none =>
      dsimp only
      obtain ⟨t, ht⟩ : ∃ t, t = countUp (fun i s =>
        (s.setPhys (PT1_BASE + 4 * i) 0).setPhys (PT0_BASE + 4 * i) 0) 0xFFF s := ⟨_, rfl⟩
      rw [← ht]
      -- behind pass `n` the first `n` slots of both halves are filled
      have hloop := countUp_invariant (n := 0x800) (s := t)
        (g := fun i s => (s.setPhys (PT0_BASE + 4 * i) (sectionEntry i)).setPhys
          (PT1_BASE + 4 * (i + 0x800)) (sectionEntry i))
        (I := fun n u => ∀ j < n, u.bootEntry j = sectionEntry j ∧
          u.bootEntry (j + 0x800) = sectionEntry j) (fun n u hn hu j hj => ?_) (by simp)
      · by_cases hlow : k < 0x800
        · rw [(hloop k hlow).1, Nat.mod_eq_of_lt hlow]
        · have hhigh := (hloop (k - 0x800) (by omega)).2
          rw [show k - 0x800 + 0x800 = k by omega] at hhigh
          rw [hhigh, show k % 0x800 = k - 0x800 by omega]
      · have hsmall := sectionEntry_lt (show n < 4096 by omega)
        rw [bootEntry_setPhys (by omega) hsmall, bootEntry_setPhys (by omega) hsmall,
          show PT0_BASE = PT1_BASE from rfl, bootEntry_setPhys (by omega) hsmall,
          bootEntry_setPhys (by omega) hsmall]
        by_cases hjn : j = n
        · rw [hjn, if_pos rfl, if_pos rfl, if_neg (by omega)]
          exact ⟨rfl, rfl⟩
        · obtain ⟨h₁, h₂⟩ := hu j (by omega)
          rw [if_neg (by omega), if_neg hjn, if_neg (by omega), if_neg (by omega)]
          exact ⟨h₁, h₂⟩

theorem bootEntry_high (s : State) {k : Nat} (hk : k < 4096) :
    s.preparePageTable.mmuHighMain.bootEntry k =
      if k < 0x800 then 0 else sectionEntry (bootSection k) := by
  unfold mmuHighMain
  rw [show KERNEL_BASE >>> 20 = 0x800 from rfl]
  have hloop := countUp_invariant (n := 0x800) (s := s.preparePageTable)
    (g := fun i s => s.setWord (pageTable + 4 * i) 0)
    (I := fun n u => ∀ j < 4096, u.bootEntry j =
      if j < n then 0 else sectionEntry (bootSection j)) (fun n u _ hu j hj => ?_)
    (fun j hj => by rw [if_neg (by omega)]; exact bootEntry_prepare s hj)
  · exact hloop k hk
  · rw [bootEntry_setWord (by decide), hu j hj]
    by_cases hjn : j = n
    · rw [if_pos hjn, if_pos (by omega)]
    · rw [if_neg hjn]
      by_cases hlt : j < n
      · rw [if_pos hlt, if_pos (by omega)]
      · rw [if_neg hlt, if_neg (by omega)]

end State

/-! ## The translation -/

/-- Where the kernel's addresses lie: in sections of their own, or in the memory in order. -/
def kernelMap (va : Nat) : Option Nat :=
  if va < KERNEL_BASE then none
  else
    match ownSections.lookup (va / PAGE_L1SIZE) with
    | some b => some (b * PAGE_L1SIZE + va % PAGE_L1SIZE)
    | none => some (va - KERNEL_BASE)

theorem lookup_mem {l : List (Nat × Nat)} {k b : Nat} (h : l.lookup k = some b) : (k, b) ∈ l := by
  induction l with
  | nil => simp at h
  | cons r l ih =>
      rw [List.lookup_cons] at h
      by_cases hk : k = r.1
      · rw [hk, beq_self_eq_true] at h
        obtain rfl := Option.some.inj h
        rw [hk]
        exact List.mem_cons_self ..
      · rw [beq_false_of_ne hk] at h
        exact List.mem_cons_of_mem _ (ih h)

theorem State.walk_section {s : State} {pt va b : Nat}
    (h : s.word (pt + 4 * (va / PAGE_L1SIZE)) = sectionEntry b) :
    s.walk pt va = some (b * PAGE_L1SIZE + va % PAGE_L1SIZE) := by
  have htype : ptel1Type (sectionEntry b) = 2 := by
    unfold ptel1Type
    rw [sectionEntry_eq]
    omega
  have hbase : sectionEntry b / PAGE_L1SIZE * PAGE_L1SIZE = b * PAGE_L1SIZE := by
    unfold PAGE_L1SIZE
    rw [sectionEntry_eq]
    omega
  unfold State.walk
  dsimp only
  rw [h, htype, if_neg (by decide), if_pos rfl, hbase]

theorem bootSection_map {va : Nat} (h : KERNEL_BASE ≤ va) (hva : va < 4294967296) :
    some (bootSection (va / PAGE_L1SIZE) * PAGE_L1SIZE + va % PAGE_L1SIZE) = kernelMap va := by
  unfold kernelMap bootSection
  rw [if_neg (by omega)]
  unfold KERNEL_BASE at h
  cases ownSections.lookup (va / PAGE_L1SIZE) with
  | some b => rfl
  | none =>
      unfold KERNEL_BASE PAGE_L1SIZE
      exact congrArg some (show va / 1048576 % 2048 * 1048576 + va % 1048576 = va - 2147483648 by
        omega)

theorem ownSections_lookup_none {va : Nat} (h : va < 3489660928) :
    ownSections.lookup (va / PAGE_L1SIZE) = none := by
  cases hown : ownSections.lookup (va / PAGE_L1SIZE) with
  | none => rfl
  | some b =>
      have := (ownSections_small _ (lookup_mem hown)).2.1
      unfold PAGE_L1SIZE at this
      omega

theorem walk_prepared (s : State) {va : Nat} (hva : va < 4294967296) :
    s.preparePageTable.walk pageTable va = if va < KERNEL_BASE then some va else kernelMap va := by
  have hslot : va / PAGE_L1SIZE < 4096 := by
    unfold PAGE_L1SIZE
    omega
  rw [State.walk_section (s.bootEntry_prepare hslot)]
  split
  · next hlow =>
      unfold KERNEL_BASE at hlow
      unfold bootSection
      rw [ownSections_lookup_none (by omega)]
      unfold PAGE_L1SIZE
      exact congrArg some (show va / 1048576 % 2048 * 1048576 + va % 1048576 = va by omega)
  · next hhigh => exact bootSection_map (by omega) hva

theorem walk_high (s : State) {va : Nat} (hva : va < 4294967296) :
    s.preparePageTable.mmuHighMain.walk pageTable va = kernelMap va := by
  have hslot : va / PAGE_L1SIZE < 4096 := by
    unfold PAGE_L1SIZE
    omega
  have hentry := s.bootEntry_high hslot
  by_cases hlow : va < KERNEL_BASE
  · rw [if_pos (by unfold PAGE_L1SIZE; unfold KERNEL_BASE at hlow; omega)] at hentry
    have hmap : kernelMap va = none := if_pos hlow
    unfold State.bootEntry at hentry
    unfold State.walk
    dsimp only
    rw [hentry, hmap]
    rfl
  · rw [if_neg (by unfold PAGE_L1SIZE; unfold KERNEL_BASE at hlow; omega)] at hentry
    rw [State.walk_section hentry]
    exact bootSection_map (by omega) hva

theorem kernelMap_P2V {p : Nat} (hhi : p < 0x1f000000) : kernelMap (P2V p) = some p := by
  have hP := P2V_of_lt (show p < 2147483648 by omega)
  unfold kernelMap
  rw [ownSections_lookup_none (by omega), hP, if_neg (by unfold KERNEL_BASE; omega)]
  unfold KERNEL_BASE
  exact congrArg some (by omega)

/-- No section of its own lies in managed memory. -/
theorem eq_P2V_of_kernelMap {p va : Nat} (hlo : 0x800000 ≤ p) (hhi : p < 0x1f000000)
    (hp : kernelMap va = some p) : va = P2V p := by
  have hP := P2V_of_lt (show p < 2147483648 by omega)
  unfold kernelMap at hp
  split at hp
  · simp at hp
  · next hhigh =>
      unfold KERNEL_BASE at hhigh
      cases hown : ownSections.lookup (va / PAGE_L1SIZE) with
      | some b =>
          rw [hown] at hp
          have hb := (ownSections_small _ (lookup_mem hown)).2.2.2
          have := Option.some.inj hp
          unfold PAGE_L1SIZE at this
          dsimp only at hb
          omega
      | none =>
          rw [hown] at hp
          have := Option.some.inj hp
          unfold KERNEL_BASE at this
          omega

/-- After `prepare_page_table` the lower half is the memory as it is, and the upper half the kernel's
mapping; `mmu_high_main` leaves the upper half alone. A byte that the page allocator manages has one
kernel address. -/
theorem kernel_map (s : State) :
    (∀ va < 4294967296, s.preparePageTable.walk pageTable va =
      if va < KERNEL_BASE then some va else kernelMap va) ∧
    (∀ va < 4294967296, s.preparePageTable.mmuHighMain.walk pageTable va = kernelMap va) ∧
    ∀ p, 0x800000 ≤ p → p < 0x1f000000 →
      kernelMap (P2V p) = some p ∧ ∀ va < 4294967296, kernelMap va = some p → va = P2V p := by
  exact ⟨fun va hva => walk_prepared s hva, fun va hva => walk_high s hva, fun p hlo hhi =>
    ⟨kernelMap_P2V hhi, fun va _ hp => eq_P2V_of_kernelMap hlo hhi hp⟩⟩

end Aimv6.Mm
