import Aimv6.Fs.FsEntries
import Mathlib.Order.Bounds.Basic

/-! # Descriptors

The search of `create_file_from_name` ends on the least positive number that no
file has. So the numbers on the file list are positive and all different, in
every state that the calls lead to, and a lookup by number has at most one entry
to find.
-/

namespace Aimv6.Fs

open Support

variable {fs fs' : FsState} {files files' : List Nat}

/-- The numbers on the file list are positive, words, and all different. -/
structure Described (fs : FsState) (files : List Nat) : Prop where
  listed : FileList fs files
  positive : ∀ x ∈ files, 1 ≤ fs.indexNumber x
  word : ∀ x ∈ files, fs.indexNumber x < 4294967296
  distinct : (files.map fs.indexNumber).Nodup

def unusedNumbers (fs : FsState) (files : List Nat) : Set Nat :=
  {d | 1 ≤ d ∧ ∀ x ∈ files, fs.indexNumber x ≠ d}

theorem FileList.unusedFd_least (h : FileList fs files) :
    ∃ fd, IsLeast (unusedNumbers fs files) fd ∧ unusedFd fs walkFuel 1 = .ok fd := by
  obtain ⟨fd, hfd⟩ := h.unusedFd_returns 1
  obtain ⟨hpos, hunused, hbelow⟩ := h.unusedFd_spec hfd
  refine ⟨fd, ⟨⟨hpos, hunused⟩, ?_⟩, hfd⟩
  intro d hd
  by_contra hlt
  obtain ⟨x, hx, hxd⟩ := List.mem_map.1 (hbelow d hd.1 (Nat.lt_of_not_le hlt))
  exact hd.2 x hx hxd

section Create

variable {name : Nat → UInt8} {n : Int} {p fd : Nat} {same : Int}

/-- Behind the test of the name, creating a file returns what the search ends on. -/
theorem createFileFromName_unused (hn : -4 ≤ n) (hn' : n ≤ 9)
    (hname : fnameToFd fs name n = .ok same) (hsame : same ≠ 0)
    (hfd : unusedFd fs walkFuel 1 = .ok fd) :
    createFileFromName fs name n (some p) =
      .ok (fd, { fs.setEntry p (newEntry fs p fd n) with fentryHead := some p }) := by
  unfold createFileFromName
  rw [if_neg (by omega), hname, Res.ok_bind, if_neg hsame, hfd, Res.ok_bind]
  dsimp only
  rw [if_neg (by omega), clearNameByte_newEntry fs p fd (by omega)]

theorem createFileFromName_exists (hn : n ≤ 9) (hname : fnameToFd fs name n = .ok 0) :
    createFileFromName fs name n (some p) = .ok (-2, fs) := by
  unfold createFileFromName
  rw [if_neg (by omega), hname, Res.ok_bind, if_pos rfl]

theorem FileList.fnameToFd_returns (h : FileList fs files) (name : Nat → UInt8) (hn : -4 ≤ n) :
    ∃ r, fnameToFd fs name n = .ok r := by
  unfold fnameToFd
  split
  · exact ⟨_, rfl⟩
  · obtain ⟨l₁, l₂, -, -, -, hfind⟩ := h.find_spec fun e => e.hasName name n
    rw [if_neg (by omega), hfind, Res.ok_bind]
    cases l₂ with
    | nil => exact ⟨_, rfl⟩
    | cons x l₂ => exact ⟨_, rfl⟩

theorem FileList.fnameToFd_cases (h : FileList fs files) {r : Int}
    (hrun : fnameToFd fs name n = .ok r) : r = -1 ∨ ∃ x ∈ files, r = toInt (fs.indexNumber x) := by
  unfold fnameToFd at hrun
  split at hrun
  · exact Or.inl (Except.ok.inj hrun).symm
  · split at hrun
    · simp at hrun
    · obtain ⟨l₁, l₂, rfl, -, -, hfind⟩ := h.find_spec fun e => e.hasName name n
      rw [hfind, Res.ok_bind] at hrun
      cases l₂ with
      | nil => exact Or.inl (Except.ok.inj hrun).symm
      | cons x l₂ => exact Or.inr ⟨x, by simp, (Except.ok.inj hrun).symm⟩

end Create

namespace Described

theorem kept (h : Described fs files) (hk : Kept fs fs' files files') : Described fs' files' where
  listed := hk.listed
  positive := by
    intro x hx
    rw [hk.index x]
    exact h.positive x (hk.sublist.subset hx)
  word := by
    intro x hx
    rw [hk.index x]
    exact h.word x (hk.sublist.subset hx)
  distinct := by
    rw [List.map_congr_left fun x _ => hk.index x]
    exact h.distinct.sublist (hk.sublist.map fs.indexNumber)

/-- The entry of a new file keeps the numbers different exactly if the zero behind its name leaves
its number alone. -/
theorem created_iff (h : Described fs files) {p fd : Nat} {n : Int}
    (hc : Created fs fs' files p fd n) : Described fs' (p :: files) ↔ storedNumber fd n = fd := by
  obtain ⟨hpos, hunused, hbelow⟩ := h.listed.unusedFd_spec hc.unused
  have hself : fs'.indexNumber p = storedNumber fd n := congrArg Fentry.indexNumber hc.self
  have hothers : ∀ x ∈ files, fs'.indexNumber x = fs.indexNumber x := fun x hx =>
    congrArg Fentry.indexNumber (hc.others x hx)
  have hmap : (p :: files).map fs'.indexNumber = storedNumber fd n :: files.map fs.indexNumber := by
    rw [List.map_cons, hself, List.map_congr_left hothers]
  constructor
  · intro h'
    by_contra hne
    -- a smaller number is zero or taken
    have hlt : storedNumber fd n < fd := Nat.lt_of_le_of_ne (storedNumber_le fd n) hne
    have hone : 1 ≤ storedNumber fd n := hself ▸ h'.positive p (List.mem_cons_self ..)
    have hdistinct := h'.distinct
    rw [hmap] at hdistinct
    exact (List.nodup_cons.1 hdistinct).1 (hbelow _ hone hlt)
  · intro hsame
    rw [hsame] at hself hmap
    have hword : fd < 4294967296 := by
      have hle := h.listed.unusedFd_le hc.unused
      have hlen : (p :: files).length < 4294967296 := hc.listed.length_lt
      rw [List.length_cons] at hlen
      omega
    refine ⟨hc.listed, fun x hx => ?_, fun x hx => ?_, ?_⟩
    · cases List.mem_cons.1 hx with
      | inl hxp => rw [hxp, hself]; exact hpos
      | inr hx => rw [hothers x hx]; exact h.positive x hx
    · cases List.mem_cons.1 hx with
      | inl hxp => rw [hxp, hself]; exact hword
      | inr hx => rw [hothers x hx]; exact h.word x hx
    · rw [hmap, List.nodup_cons]
      refine ⟨fun hmem => ?_, h.distinct⟩
      obtain ⟨x, hx, hxfd⟩ := List.mem_map.1 hmem
      exact hunused x hx hxfd

/-- The entry that a lookup by number finds is the only one with the number. -/
theorem findIndex_only (h : Described fs files) {index x : Nat}
    (hfind : fs.findIndex index = .ok (some x)) :
    x ∈ files ∧ fs.indexNumber x = index ∧ ∀ y ∈ files, fs.indexNumber y = index → y = x := by
  cases h.listed.findIndex_spec index with
  | inl hfound =>
      obtain ⟨z, hz, hzi, hfind'⟩ := hfound
      obtain rfl : z = x := Option.some.inj (Except.ok.inj (hfind'.symm.trans hfind))
      refine ⟨hz, hzi, fun y hy hyi => ?_⟩
      exact List.inj_on_of_nodup_map h.distinct hy hz (hyi.trans hzi.symm)
  | inr hnone => exact absurd (Except.ok.inj (hnone.2.symm.trans hfind)) (by simp)

/-- No number reads as zero, so the test of the name never keeps a file from being created. -/
theorem fnameToFd_ne_zero (h : Described fs files) (name : Nat → UInt8) (n : Int) :
    fnameToFd fs name n ≠ .ok 0 := by
  intro hrun
  rcases h.listed.fnameToFd_cases hrun with hnone | ⟨x, hx, hzero⟩
  · omega
  · have hpos := h.positive x hx
    have hword := h.word x hx
    unfold toInt at hzero
    split at hzero <;> omega

theorem creates (h : Described fs files) {name : Nat → UInt8} {n : Int} {p : Nat} (hn : -4 ≤ n)
    (hn' : n ≤ 9) : ∃ fd fs', IsLeast (unusedNumbers fs files) fd ∧
      createFileFromName fs name n (some p) = .ok (fd, fs') := by
  obtain ⟨fd, hleast, hfd⟩ := h.listed.unusedFd_least
  obtain ⟨same, hsame⟩ := h.listed.fnameToFd_returns name hn
  have hne : same ≠ 0 := by
    rintro rfl
    exact h.fnameToFd_ne_zero name n hsame
  exact ⟨fd, _, hleast, createFileFromName_unused hn hn' hsame hne hfd⟩

end Described

/-- The numbers of the files are positive and different, so that the first entry found by its number
is the only one with it, and a new file gets the least unused number. -/
def WellNumbered (fs : FsState) : Prop :=
  ∃ files, Described fs files ∧
    (∀ index x, fs.findIndex index = .ok (some x) →
      x ∈ files ∧ ∀ y ∈ files, fs.indexNumber y = index → y = x) ∧
    ∀ (name : Nat → UInt8) (n : Int) (p : Nat), -4 ≤ n → n ≤ 9 →
      ∃ fd fs', IsLeast (unusedNumbers fs files) fd ∧
        createFileFromName fs name n (some p) = .ok (fd, fs')

theorem Described.wellNumbered (h : Described fs files) : WellNumbered fs := by
  refine ⟨files, h, fun index x hfind => ?_, fun name n p hn hn' => h.creates hn hn'⟩
  obtain ⟨hx, -, honly⟩ := h.findIndex_only hfind
  exact ⟨hx, honly⟩

/-- The call stores the zero behind the name in the name, or where the number of the new file has a
zero already. -/
def FsCall.SparesNumber (fs : FsState) : FsCall → Prop
  | .keep (.create _ n (some _)) => 0 ≤ n ∨ -4 ≤ n ∧ ∀ files fd, FileList fs files →
      IsLeast (unusedNumbers fs files) fd → fd / 256 ^ (n + 4).toNat % 256 = 0
  | _ => True

/-- The byte of the number that a negative `n` designates is the one that has to be zero. -/
theorem FileList.sparesNumber_iff (h : FileList fs files) {name : Nat → UInt8} {n : Int}
    {p fd : Nat} (hn : -4 ≤ n) (hfd : unusedFd fs walkFuel 1 = .ok fd) :
    FsCall.SparesNumber fs (.keep (.create name n (some p))) ↔ storedNumber fd n = fd := by
  obtain ⟨fd', hleast, hfd'⟩ := h.unusedFd_least
  obtain rfl : fd = fd' := Except.ok.inj (hfd.symm.trans hfd')
  unfold FsCall.SparesNumber storedNumber
  dsimp only
  by_cases hneg : n < 0
  · rw [if_pos hneg, clearByte_eq_self]
    constructor
    · rintro (hnonneg | ⟨-, hbyte⟩)
      · omega
      · exact hbyte files fd h hleast
    · refine fun hbyte => Or.inr ⟨hn, fun files' fd' h' hleast' => ?_⟩
      obtain rfl := Chain.unique h.file_list h'.file_list
      rwa [hleast'.unique hleast]
  · rw [if_neg hneg]
    exact ⟨fun _ => rfl, fun _ => Or.inl (Int.not_lt.1 hneg)⟩

namespace FsSystem

variable {S S' : FsSystem}

/-- A call keeps the numbers positive and different exactly if it spares the one of the new file. -/
theorem wellNumbered_step_iff (h : WellNumbered S.w.fs) {d : FsCall}
    (hstep : S.descriptorStep d = some S') : WellNumbered S'.w.fs ↔ d.SparesNumber S.w.fs := by
  obtain ⟨files, h, -⟩ := h
  rcases descriptorStep_entries h.listed hstep with ⟨files', hk, hwhy⟩ | hnew
  · refine iff_of_true (h.kept hk).wellNumbered ?_
    unfold FsCall.SparesNumber
    split
    case h_1 name n p =>
      have hlong := (hwhy name n p rfl).resolve_right (h.fnameToFd_ne_zero name n)
      exact Or.inl (by omega)
    case h_2 => trivial
  · obtain ⟨name, n, p, fd, rfl, hn, hc⟩ := hnew
    rw [h.listed.sparesNumber_iff hn hc.unused, ← h.created_iff hc]
    constructor
    · rintro ⟨files', h', -⟩
      obtain rfl := Chain.unique h'.listed.file_list hc.listed.file_list
      exact h'
    · exact Described.wellNumbered

theorem init_wellNumbered (w₀ : World) : WellNumbered (init w₀).w.fs :=
  Described.wellNumbered (show Described (init w₀).w.fs [] from
    ⟨⟨rfl, by simp⟩, by simp, by simp, List.nodup_nil⟩)

/-- Over every list of files with different numbers the search ends on the least unused number,
which is what creating a file returns, unless the file already exists because its name is found at
number zero. Along a run from `build_fs()` the numbers stay positive and different exactly if no
call stores the zero behind a name in a byte of the new file's number that was not zero. -/
theorem descriptor_allocation {w₀ : World} {ds : List FsCall} {S : FsSystem}
    (hrun : run descriptorStep (init w₀) ds = some S) :
    (∀ (fs : FsState) (files : List Nat), FileList fs files →
      (files.map fs.indexNumber).Nodup →
      ∃ fd, IsLeast (unusedNumbers fs files) fd ∧ unusedFd fs walkFuel 1 = .ok fd ∧
        ∀ (name : Nat → UInt8) (n : Int) (p : Nat), -4 ≤ n → n ≤ 9 →
          ∃ c fs', createFileFromName fs name n (some p) = .ok (c, fs') ∧
            (c = fd ∨ c = -2 ∧ fnameToFd fs name n = .ok 0)) ∧
    ((∀ ds₁ S₁, ds₁ <+: ds → run descriptorStep (init w₀) ds₁ = some S₁ →
        WellNumbered S₁.w.fs) ↔
      ∀ ds₁ d S₁, ds₁ ++ [d] <+: ds → run descriptorStep (init w₀) ds₁ = some S₁ →
        d.SparesNumber S₁.w.fs) := by
  constructor
  · intro fs files h _
    obtain ⟨fd, hleast, hfd⟩ := h.unusedFd_least
    refine ⟨fd, hleast, hfd, fun name n p hn hn' => ?_⟩
    obtain ⟨same, hsame⟩ := h.fnameToFd_returns name hn
    by_cases hzero : same = 0
    · subst hzero
      exact ⟨-2, fs, createFileFromName_exists hn' hsame, Or.inr ⟨rfl, hsame⟩⟩
    · exact ⟨fd, _, createFileFromName_unused hn hn' hsame hzero hfd, Or.inl rfl⟩
  · exact run_invariant_iff (fun _ _ _ h hstep => wellNumbered_step_iff h hstep)
      (init_wellNumbered w₀) hrun

/-- `create_file_from_name("a", 1)` and then `create_file_from_name("b", -1)`, which finds a zero in
the highest byte of the new number. -/
def twoCreates : List FsCall :=
  [.keep (.create (fun _ => 97) 1 (some 2155880440)), .keep (.create (fun _ => 98) (-1) (some 2155880480))]

theorem twoCreates_unused : (run descriptorStep (init blank) (twoCreates.take 1)).map (fun S =>
    unusedFd S.w.fs walkFuel 1) = some (.ok 2) ∧
    (run descriptorStep (init blank) twoCreates).isSome = true := by
  constructor <;> decide +kernel

theorem descriptor_allocation_sample :
    (∃ fd, IsLeast (unusedNumbers (init blank).w.fs []) fd ∧
      unusedFd (init blank).w.fs walkFuel 1 = .ok fd) ∧
    ∃ S, run descriptorStep (init blank) twoCreates = some S ∧ WellNumbered S.w.fs := by
  obtain ⟨hone, htwo⟩ := twoCreates_unused
  obtain ⟨S₁, hS₁, hunused⟩ := Option.map_eq_some_iff.1 hone
  obtain ⟨S, hS⟩ := Option.isSome_iff_exists.1 htwo
  obtain ⟨hsearch, hall⟩ := descriptor_allocation hS
  constructor
  · obtain ⟨fd, hleast, hfd, -⟩ := hsearch (init blank).w.fs [] ⟨rfl, by simp⟩ List.nodup_nil
    exact ⟨fd, hleast, hfd⟩
  · refine ⟨S, hS, hall.2 (fun ds₁ d S' hpre hrun => ?_) twoCreates S (List.prefix_refl _) hS⟩
    have hcases : ds₁ = [] ∧ d = twoCreates[0] ∨ ds₁ = twoCreates.take 1 ∧ d = twoCreates[1] := by
      obtain ⟨rest, heq⟩ := hpre
      match ds₁, heq with
      | [], heq => exact Or.inl ⟨rfl, (List.cons.inj heq).1⟩
      | [_], heq =>
          obtain ⟨rfl, htail⟩ := List.cons.inj heq
          exact Or.inr ⟨rfl, (List.cons.inj htail).1⟩
      | _ :: _ :: ds, heq => simp [twoCreates] at heq
    rcases hcases with ⟨rfl, rfl⟩ | ⟨rfl, rfl⟩
    · exact Or.inl (by decide)
    · obtain rfl := Option.some.inj (hS₁.symm.trans hrun)
      refine Or.inr ⟨by decide, fun files fd hlisted hleast => ?_⟩
      obtain ⟨fd', hleast', hfd'⟩ := hlisted.unusedFd_least
      rw [hleast.unique hleast', ← Except.ok.inj (hunused.symm.trans hfd')]
      decide

/-- `create_file_from_name(name, -4)` -/
def negativeCreate : List FsCall := [.keep (.create (fun _ => 97) (-4) (some 2155880440))]

theorem negativeCreate_number : (run descriptorStep (init blank) negativeCreate).map (fun S =>
    (S.w.fs.fentryHead, S.w.fs.indexNumber 2155880440)) = some (some 2155880440, 0) := by
  decide +kernel

/-- The first file that is created with the length -4 has the number 0. -/
theorem negative_length_fails : ∃ S, run descriptorStep (init blank) negativeCreate = some S ∧
    ¬ WellNumbered S.w.fs := by
  obtain ⟨S, hS, hpair⟩ := Option.map_eq_some_iff.1 negativeCreate_number
  obtain ⟨hhead, hnumber⟩ := Prod.mk.inj hpair
  refine ⟨S, hS, ?_⟩
  rintro ⟨files, h, -⟩
  have hfirst := Chain.head_eq h.listed.file_list
  rw [hhead] at hfirst
  have hpos := h.positive _ (List.mem_of_mem_head? hfirst.symm)
  omega

end FsSystem

end Aimv6.Fs
