import Aimv6.Mm.AddressSpaces

/-! # Private memories

What an address space is for: each process has a memory of its own, which grows
by zeros where it maps pages and otherwise holds what the process stored last.
Along every run the translations of the page tables compute these memories.
-/

namespace Aimv6.Mm

open Support

/-- What each process reads below `KERNEL_BASE`, by its table and the address. -/
abbrev PrivateMemory := Nat → Nat → Option UInt8

instance (start finish va : Nat) : Decidable (Meets start finish va) :=
  inferInstanceAs (Decidable (_ ∧ _))

namespace PrivateMemory

def none : PrivateMemory := fun _ _ => .none

def zeroFill (P : PrivateMemory) (pt start finish : Nat) : PrivateMemory := fun q va =>
  if q = pt ∧ va < KERNEL_BASE ∧ Meets start finish va then some ((P q va).getD 0) else P q va

def store (P : PrivateMemory) (pt va : Nat) (v : UInt8) : PrivateMemory := fun q a =>
  if q = pt ∧ a = va then some v else P q a

/-- A process that `_fork` makes has mapped nothing, and the kernel's own memory is private too. -/
def step (P : PrivateMemory) : SpaceEvent → PrivateMemory
  | .fork _ => P
  | .map pt start finish => P.zeroFill pt start finish
  | .store pt va v => P.store pt va v
  | .take _ _ => P
  | .write _ _ => P

end PrivateMemory

namespace SpaceSystem

def contents (S : SpaceSystem) : PrivateMemory := fun pt va =>
  if pt ∈ S.tables ∧ va < KERNEL_BASE then (S.st.walk pt va).map fun a => S.st.mem (P2V a)
  else none

variable {S S' : SpaceSystem} {s s' : State} {U U' : Set Nat} {M M' : Nat → Space} {pt q va a c : Nat}

theorem contents_of_not_mem (h : ¬ (q ∈ S.tables ∧ va < KERNEL_BASE)) : S.contents q va = none :=
  if_neg h

theorem contents_outside (h : ¬ (q ∈ S.tables ∧ va < KERNEL_BASE))
    (h' : ¬ (q ∈ S'.tables ∧ va < KERNEL_BASE)) : S'.contents q va = S.contents q va :=
  (contents_of_not_mem h').trans (contents_of_not_mem h).symm

theorem Inv.contents_eq (h : S.Inv U M) (hq : q ∈ S.tables) (hva : va < KERNEL_BASE) :
    S.contents q va = ((M q).phys va).map fun a => S.st.mem (P2V a) := by
  unfold contents
  rw [if_pos ⟨hq, hva⟩, (h.maps q hq).walk_eq hva]

theorem Inv.mem_bytes (h : S.Inv U M) (hq : q ∈ S.tables) (hva : va < KERNEL_BASE)
    (ha : (M q).phys va = some a) : P2V a ∈ (M q).bytes q := by
  rw [← (h.maps q hq).walk_eq hva] at ha
  obtain ⟨-, -, -, hin, -⟩ := (h.maps q hq).frame_of_walk hva ha
  exact hin

theorem Inv.contents_same (h : S.Inv U M) (h' : S'.Inv U' M') (hq : q ∈ S.tables)
    (hq' : q ∈ S'.tables) (hM : M' q = M q)
    (hmem : ∀ b ∈ (M q).bytes q, S'.st.mem b = S.st.mem b) (va : Nat) :
    S'.contents q va = S.contents q va := by
  by_cases hva : va < KERNEL_BASE
  · rw [h.contents_eq hq hva, h'.contents_eq hq' hva, hM]
    refine Option.map_congr fun a ha => hmem _ (h.mem_bytes hq hva ?_)
    exact ha
  · exact contents_outside (fun hc => hva hc.2) fun hc => hva hc.2

theorem Inv.byte_once (h : S.Inv U M) (hpt : pt ∈ S.tables) (hq : q ∈ S.tables) {va' a' : Nat}
    (hva : va < KERNEL_BASE) (hva' : va' < KERNEL_BASE) (ha : (M pt).phys va = some a)
    (ha' : (M q).phys va' = some a') (heq : P2V a' = P2V a) : q = pt ∧ va' = va := by
  have hin := h.mem_bytes hpt hva ha
  have hin' := h.mem_bytes hq hva' ha'
  have hqp : q = pt := by
    by_contra hne
    rw [heq] at hin'
    exact Set.disjoint_left.1 (h.apart_of_ne hq hpt hne) hin' hin
  subst hqp
  obtain ⟨f, hf, hfa⟩ := Space.phys_eq_some.1 ha
  obtain ⟨g, hg, hga⟩ := Space.phys_eq_some.1 ha'
  have hhi := ((h.maps q hq).frame_ok _ f hf).hi
  have hhi' := ((h.maps q hq).frame_ok _ g hg).hi
  rw [P2V_of_lt (by omega), P2V_of_lt (by omega)] at heq
  have hsame : a' = a := by omega
  exact ⟨rfl, (h.maps q hq).phys_inj ha' (hsame ▸ ha)⟩

/-! ## The steps -/

theorem fork_spec (hI : S.Inv U M) (h : S.step (.fork pt) = some S') :
    (∃ U' M', S'.Inv U' M') ∧ S'.contents = S.contents := by
  unfold step at h
  dsimp only at h
  split at h
  case isFalse => simp at h
  case isTrue hok =>
    obtain ⟨⟨c, s'⟩, hcall, rfl⟩ := Option.map_eq_some_iff.1 h
    have hf := forkSpace_spec hI.holds (hI.maps pt hok.1) (hI.held pt hok.1) hok.2
      (Res.toOption_eq_some.1 hcall)
    have hI' := hI.fork hok.1 hf
    have hnew : c ∉ S.tables := by
      have hnodup := hI'.nodup
      exact (List.nodup_cons.1 hnodup).1
    refine ⟨⟨_, _, hI'⟩, funext fun q => funext fun va => ?_⟩
    by_cases hq : q ∈ S.tables
    · have hne : q ≠ c := fun hc => hnew (hc ▸ hq)
      exact hI.contents_same hI' hq (List.mem_cons_of_mem _ hq) (Function.update_of_ne hne ..)
        (fun b hb => hf.kept b (hI.held q hq hb)) va
    · rw [contents_of_not_mem (S := S) fun hc => hq hc.1]
      by_cases hqc : q = c ∧ va < KERNEL_BASE
      · obtain ⟨rfl, hva⟩ := hqc
        rw [hI'.contents_eq (List.mem_cons_self ..) hva, Function.update_self]
        rfl
      · refine contents_of_not_mem fun hc => ?_
        rcases List.mem_cons.1 hc.1 with rfl | hold
        · exact hqc ⟨rfl, hc.2⟩
        · exact hq hold

theorem map_spec (hI : S.Inv U M) {start finish : Nat}
    (h : S.step (.map pt start finish) = some S') :
    (∃ U' M', S'.Inv U' M') ∧ S'.contents = S.contents.zeroFill pt start finish := by
  unfold step at h
  dsimp only at h
  split at h
  case isFalse => simp at h
  case isTrue hok =>
    obtain ⟨hpt, hstart, hlt, hle⟩ := hok
    obtain ⟨s', hcall, rfl⟩ := Option.map_eq_some_iff.1 h
    obtain ⟨U', N, hg, hall⟩ := kernelAllocators_fresh.mmap_spec (hI.maps pt hpt) hI.holds
      (hI.held pt hpt) (by omega) hle (Res.toOption_eq_some.1 hcall)
    have hI' := hI.grow hpt hg
    have hm := hg.mmapped (hI.maps pt hpt) (hI.held pt hpt) hall hstart
    refine ⟨⟨_, _, hI'⟩, funext fun q => funext fun va => ?_⟩
    unfold PrivateMemory.zeroFill
    by_cases hq : q = pt
    · subst hq
      by_cases hva : va < KERNEL_BASE
      · have hbefore : S.contents q va = (S.st.walk q va).map fun a => S.st.mem (P2V a) :=
          if_pos ⟨hpt, hva⟩
        have hafter : contents { S with st := s' } q va =
            (s'.walk q va).map fun a => s'.mem (P2V a) := if_pos ⟨hpt, hva⟩
        rw [hafter, hbefore]
        cases hold : S.st.walk q va with
        | some a =>
            -- a page that was mapped keeps its frame
            obtain ⟨hwalk, -, hmem⟩ := hm.old va hva a hold
            rw [hwalk, Option.map_some, Option.map_some, hmem]
            split <;> rfl
        | none =>
            by_cases hmeets : Meets start finish va
            · obtain ⟨a, ha⟩ := hm.mapped va hva hmeets
              rw [if_pos ⟨rfl, hva, hmeets⟩, ha, Option.map_some, (hm.new va hva a hold ha).2]
              rfl
            · rw [if_neg fun hc => hmeets hc.2.2, hm.outside va hva hmeets, hold]
              rfl
      · rw [if_neg fun hc => hva hc.2.1]
        exact contents_outside (fun hc => hva hc.2) fun hc => hva hc.2
    · rw [if_neg fun hc => hq hc.1]
      by_cases hmem : q ∈ S.tables
      · refine hI.contents_same hI' hmem hmem (Function.update_of_ne hq ..) (fun b hb => ?_) va
        refine hg.kept b (hI.held q hmem hb) fun htab => ?_
        exact Set.disjoint_left.1 (hI.apart_of_ne hmem hpt hq) hb (Or.inl (Or.inl htab))
      · exact contents_outside (fun hc => hmem hc.1) fun hc => hmem hc.1

theorem store_spec (hI : S.Inv U M) {v : UInt8} (h : S.step (.store pt va v) = some S') :
    (∃ U' M', S'.Inv U' M') ∧ S'.contents = S.contents.store pt va v := by
  unfold step at h
  dsimp only at h
  split at h
  case isFalse => simp at h
  case isTrue hok =>
    obtain ⟨hpt, hva⟩ := hok
    obtain ⟨a, ha, rfl⟩ := Option.map_eq_some_iff.1 h
    have hI' := hI.store hpt v hva ha
    have hmem : ∀ b, store8 S.st.mem (P2V a) v b = if b = P2V a then v else S.st.mem b :=
      fun b => rfl
    rw [(hI.maps pt hpt).walk_eq hva] at ha
    refine ⟨⟨_, _, hI'⟩, funext fun q => funext fun va' => ?_⟩
    unfold PrivateMemory.store
    by_cases hq : q ∈ S.tables ∧ va' < KERNEL_BASE
    · rw [hI'.contents_eq hq.1 hq.2, hI.contents_eq hq.1 hq.2]
      split
      · next heq =>
          rw [heq.1, heq.2, ha, Option.map_some]
          dsimp only
          rw [hmem, if_pos rfl]
      · next hne =>
          refine Option.map_congr fun a' ha' => ?_
          have hapart : P2V a' ≠ P2V a := fun heq => hne
            (hI.byte_once hpt hq.1 hva hq.2 ha ha' heq)
          dsimp only
          rw [hmem, if_neg hapart]
    · rw [if_neg (by rintro ⟨rfl, rfl⟩; exact hq ⟨hpt, hva⟩)]
      exact contents_outside hq hq

theorem take_spec (hI : S.Inv U M) {size align : Nat} (h : S.step (.take size align) = some S') :
    (∃ U' M', S'.Inv U' M') ∧ S'.contents = S.contents := by
  unfold step at h
  dsimp only at h
  split at h
  case isFalse => simp at h
  case isTrue hok =>
    obtain ⟨⟨p, s'⟩, hcall, rfl⟩ := Option.map_eq_some_iff.1 h
    obtain ⟨-, -, -, hg⟩ := hI.holds.slbAlloc hok.2.1 hok.2.2 hok.1 (Res.toOption_eq_some.1 hcall)
    have hI' := hI.take hg
    refine ⟨⟨_, _, hI'⟩, funext fun q => funext fun va => ?_⟩
    by_cases hq : q ∈ S.tables
    · exact hI.contents_same hI' hq hq rfl (fun b hb => hg.kept b (hI.held q hq hb)) va
    · exact contents_outside (fun hc => hq hc.1) fun hc => hq hc.1

theorem write_spec (hI : S.Inv U M) {v : UInt8} (h : S.step (.write a v) = some S') :
    (∃ U' M', S'.Inv U' M') ∧ S'.contents = S.contents := by
  unfold step at h
  dsimp only at h
  split at h
  case isFalse => simp at h
  case isTrue hok =>
    obtain ⟨o, ho, h₁, h₂⟩ := hok
    obtain rfl := Option.some.inj h
    have hI' := hI.write ho v h₁ h₂
    refine ⟨⟨_, _, hI'⟩, funext fun q => funext fun va => ?_⟩
    by_cases hq : q ∈ S.tables
    · refine hI.contents_same hI' hq hq rfl (fun b hb => store8_apply_of_ne ?_) va
      rintro rfl
      exact Set.disjoint_left.1 (hI.objects_apart o ho q hq) hb ⟨h₁, h₂⟩
    · exact contents_outside (fun hc => hq hc.1) fun hc => hq hc.1

theorem step_spec {e : SpaceEvent} (hI : ∃ U M, S.Inv U M) (h : S.step e = some S') :
    (∃ U' M', S'.Inv U' M') ∧ S'.contents = S.contents.step e := by
  obtain ⟨U, M, hI⟩ := hI
  cases e with
  | fork pt => exact fork_spec hI h
  | map pt start finish => exact map_spec hI h
  | store pt va v => exact store_spec hI h
  | take size align => exact take_spec hI h
  | write a v => exact write_spec hI h

/-! ## Runs -/

theorem init_maps (h : init s = some S) : S.tables = [pageTable] ∧
    S.Inv (Set.Ico pageTable (pageTable + PTE_L1SIZE)) fun _ => Space.empty := by
  obtain ⟨T, hT, rfl⟩ := Option.map_eq_some_iff.1 h
  obtain ⟨hU, hag⟩ := HeldByClients.init hT (U := Set.Ico pageTable (pageTable + PTE_L1SIZE))
    fun b hb => Nat.lt_of_lt_of_le hb.2 (by decide)
  have hword : ∀ i < 4096, T.st.word (pageTable + 4 * i) =
      if i < 0x800 then 0 else sectionEntry (bootSection i) := by
    intro i hi
    rw [← s.bootEntry_high hi]
    refine load32_congr hag fun b h₁ h₂ => ⟨by omega, ?_⟩
    unfold PTE_L1SIZE
    omega
  have hmaps : Maps T.st pageTable Space.empty :=
    Maps.of_empty (by decide) (by decide) fun i hi => by rw [hword i (by omega), if_pos hi]
  refine ⟨rfl, hU, fun q hq => ?_, fun q hq => ?_, List.pairwise_singleton ..,
    fun q hq i h₁ h₂ => ?_, fun o ho => absurd ho List.not_mem_nil,
    fun o ho => absurd ho List.not_mem_nil⟩
  · rw [List.mem_singleton.1 hq]
    exact hmaps
  · rw [List.mem_singleton.1 hq]
    exact Space.empty_bytes
  · rw [List.mem_singleton.1 hq, hword i h₂, if_neg (by omega)]

theorem init_inv (h : init s = some S) : (∃ U M, S.Inv U M) ∧ S.contents = PrivateMemory.none := by
  obtain ⟨-, hI⟩ := init_maps h
  refine ⟨⟨_, _, hI⟩, funext fun q => funext fun va => ?_⟩
  by_cases hq : q ∈ S.tables ∧ va < KERNEL_BASE
  · rw [hI.contents_eq hq.1 hq.2]
    rfl
  · exact contents_of_not_mem hq

theorem run_inv {es : List SpaceEvent} (hI : ∃ U M, S.Inv U M) (h : run step S es = some S') :
    (∃ U M, S'.Inv U M) ∧ S'.contents = es.foldl PrivateMemory.step S.contents :=
  run_refines (fun _ _ _ hI hstep => step_spec hI hstep) hI h

/-- In every state that the kernel and its processes reach, each process has the kernel's mapping
above `KERNEL_BASE`, and below it bytes of its own that no other process, no page table and no
object of the kernel shares. -/
theorem spaces_isolated {S₀ : SpaceSystem} {es : List SpaceEvent} (hinit : init s = some S₀)
    (hrun : run step S₀ es = some S) : S.Isolated := by
  obtain ⟨⟨U, M, hI⟩, -⟩ := run_inv (init_inv hinit).1 hrun
  exact hI.isolated

theorem init_blank : ∃ S₀, init PagesSystem.blank = some S₀ ∧
    (kernelAllocators.slbAllocAlign S₀.st PTE_L1SIZE PTE_L1ALIGN).toOption.isSome = true := by
  have hsome : ((init PagesSystem.blank).bind fun S => (kernelAllocators.slbAllocAlign S.st PTE_L1SIZE
      PTE_L1ALIGN).toOption).isSome = true := by decide +kernel
  obtain ⟨r, hr⟩ := Option.isSome_iff_exists.1 hsome
  obtain ⟨S₀, hS₀, hcall⟩ := Option.bind_eq_some_iff.1 hr
  exact ⟨S₀, hS₀, by rw [hcall]; rfl⟩

/-- The first process forks. -/
theorem spaces_isolated_sample : ∃ S₀ S : SpaceSystem, init PagesSystem.blank = some S₀ ∧
    run step S₀ [.fork pageTable] = some S ∧ S.tables.length = 2 ∧ S.Isolated := by
  obtain ⟨S₀, hinit, hcall⟩ := init_blank
  obtain ⟨htables, hI⟩ := init_maps hinit
  have hpt : pageTable ∈ S₀.tables := by simp [htables]
  have hun : NoUserSlots S₀.st pageTable := by
    intro i hi
    rw [(hI.maps _ hpt).slot i hi]
    rfl
  obtain ⟨r, hr⟩ := Option.isSome_iff_exists.1 hcall
  obtain ⟨t, hfork, -⟩ := forkSpace_of_alloc hI.holds (hI.maps _ hpt) (hI.held _ hpt) hun
    (Res.toOption_eq_some.1 hr)
  have hstep : S₀.step (.fork pageTable) = some { S₀ with
      st := t
      tables := r.1 :: S₀.tables } := by
    unfold step
    dsimp only
    rw [if_pos ⟨hpt, hun⟩, hfork]
    rfl
  have hrun := run_cons.2 ⟨_, hstep, run_nil _⟩
  exact ⟨S₀, _, hinit, hrun, by simp [htables], spaces_isolated hinit hrun⟩

/-- What a process reads depends on its own stores and mappings only: the page tables implement the
private memories, along every run. -/
theorem reads_private {S₀ : SpaceSystem} {es : List SpaceEvent} (hinit : init s = some S₀)
    (hrun : run step S₀ es = some S) :
    S.contents = es.foldl PrivateMemory.step PrivateMemory.none := by
  obtain ⟨hI, hnone⟩ := init_inv hinit
  rw [← hnone]
  exact (run_inv hI hrun).2

def sampleRun : List SpaceEvent :=
  [.take 60 0, .map pageTable 0x1000 0x2000, .store pageTable 0x1004 7]

theorem reads_private_sample : ∃ S : SpaceSystem,
    S.contents = sampleRun.foldl PrivateMemory.step PrivateMemory.none := by
  have hsome : ((init PagesSystem.blank).bind fun S₀ => run step S₀ sampleRun).isSome = true := by
    decide +kernel
  obtain ⟨S, hS⟩ := Option.isSome_iff_exists.1 hsome
  obtain ⟨S₀, hinit, hrun⟩ := Option.bind_eq_some_iff.1 hS
  exact ⟨S, reads_private hinit hrun⟩

end SpaceSystem

end Aimv6.Mm
