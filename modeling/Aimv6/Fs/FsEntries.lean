import Aimv6.Fs.FsRun
import Aimv6.Fs.FsSyscall

/-! # What the calls do to the file list

Creating a file puts an entry at the head of the list and deleting takes one
out, if it is not the head; no call changes the number or the name of an entry
that stays.
-/

namespace Aimv6.Fs

open Support

/-- The calls of a run, with deletion. -/
inductive FsCall where
  | keep (e : FsEvent)
  /-- `recycle_file(pid, index_number)` -/
  | delete (pid index : Nat)

namespace FsSystem

def callStep (S : FsSystem) : FsCall → Option FsSystem
  | .keep e => S.step e
  | .delete pid index =>
      (recycleFile S.w.fs pid index).toOption.map fun r => { S with w := { S.w with fs := r.2 } }

def descriptorStep (S : FsSystem) : FsCall → Option FsSystem
  | .keep (.create name n answer) =>
      if S.w.fs.freshAnswer answer = true then
        (createFileFromName S.w.fs name n answer).toOption.map fun r =>
          { S with w := { S.w with fs := r.2 } }
      else none
  | d => S.callStep d

end FsSystem

variable {fs fs' fs₁ : FsState} {files files' files₁ : List Nat}

/-- No entry came in, and those on the list keep their numbers and names. -/
structure Kept (fs fs' : FsState) (files files' : List Nat) : Prop where
  listed : FileList fs' files'
  sublist : files'.Sublist files
  index : ∀ y, fs'.indexNumber y = fs.indexNumber y
  name : ∀ y, fs'.fileName y = fs.fileName y

/-- A file was created at `p`. -/
structure Created (fs fs' : FsState) (files : List Nat) (p fd : Nat) (n : Int) : Prop where
  listed : FileList fs' (p :: files)
  unused : unusedFd fs walkFuel 1 = .ok fd
  self : fs'.fentry p = newEntry fs p fd n
  others : ∀ y ∈ files, fs'.fentry y = fs.fentry y

theorem Kept.refl (h : FileList fs files) : Kept fs fs files files :=
  ⟨h, List.Sublist.refl files, fun _ => rfl, fun _ => rfl⟩

theorem Kept.trans (h₁ : Kept fs fs₁ files files₁) (h₂ : Kept fs₁ fs' files₁ files') :
    Kept fs fs' files files' where
  listed := h₂.listed
  sublist := h₂.sublist.trans h₁.sublist
  index := fun y => (h₂.index y).trans (h₁.index y)
  name := fun y => (h₂.name y).trans (h₁.name y)

namespace FileList

theorem kept (h : FileList fs files) (hhead : fs'.fentryHead = fs.fentryHead)
    (hentry : ∀ y, ∃ q o, fs'.fentry y = { fs.fentry y with firstBlock := q, occupied := o }) :
    Kept fs fs' files files where
  listed := by
    refine ⟨?_, h.addresses⟩
    rw [hhead]
    apply Seg.congr h.file_list
    intro y _
    obtain ⟨q, o, hy⟩ := hentry y
    unfold FsState.nextEntry
    rw [hy]
  sublist := List.Sublist.refl files
  index := by
    intro y
    obtain ⟨q, o, hy⟩ := hentry y
    unfold FsState.indexNumber
    rw [hy]
  name := by
    intro y
    obtain ⟨q, o, hy⟩ := hentry y
    unfold FsState.fileName
    rw [hy]

theorem setOccupied (h : FileList fs files) (x pid : Nat) :
    Kept fs (fs.setOccupied x pid) files files := by
  refine h.kept rfl fun y => ?_
  by_cases hyx : y = x
  · rw [hyx]
    exact ⟨_, pid, if_pos rfl⟩
  · exact ⟨_, _, if_neg hyx⟩

theorem occupy (h : FileList fs files) {pid index o : Nat} {c : Int}
    (hrun : fs.occupy pid index o = .ok (c, fs')) : Kept fs fs' files files := by
  obtain ⟨x, -, hrun⟩ := Res.bind_eq_ok.1 hrun
  cases x with
  | none =>
      obtain ⟨-, rfl⟩ := Prod.mk.inj (Except.ok.inj hrun)
      exact Kept.refl h
  | some x =>
      dsimp only at hrun
      split at hrun
      · obtain ⟨-, rfl⟩ := Prod.mk.inj (Except.ok.inj hrun)
        exact Kept.refl h
      · obtain ⟨-, rfl⟩ := Prod.mk.inj (Except.ok.inj hrun)
        exact h.setOccupied x o

theorem openFile (h : FileList fs files) {pid index : Nat} {c : Int}
    (hrun : openFile fs pid index = .ok (c, fs')) : Kept fs fs' files files := h.occupy hrun

theorem closeFile (h : FileList fs files) {pid index : Nat} {c : Int}
    (hrun : closeFile fs pid index = .ok (c, fs')) : Kept fs fs' files files := h.occupy hrun

theorem created (h : FileList fs files) {p fd : Nat} {n : Int} (hp : p ∉ files)
    (hbounds : 0 < p ∧ p < 4294967296) (hfd : unusedFd fs walkFuel 1 = .ok fd) :
    Created fs { fs.setEntry p (newEntry fs p fd n) with fentryHead := some p } files p fd n where
  listed := h.create hp hbounds
  unused := hfd
  self := newEntry_self fs p fd n
  others := newEntry_others hp fs fd n

end FileList

theorem dataAlloc_entries (fs : FsState) (size : Int) :
    (dataAlloc fs size).2.fentry = fs.fentry ∧ (dataAlloc fs size).2.fentryHead = fs.fentryHead := by
  unfold dataAlloc
  split
  · exact ⟨rfl, rfl⟩
  · split
    · exact ⟨rfl, rfl⟩
    · rename_i x px _
      cases px <;> exact ⟨rfl, rfl⟩

theorem FileList.appendFile {w w' : World} (h : FileList w.fs files) {pid index addr : Nat}
    {size c : Int} {io : Nat → Int} (hrun : appendFile w pid index addr size io = .ok (c, w')) :
    Kept w.fs w'.fs files files := by
  obtain ⟨hentry, hhead⟩ := dataAlloc_entries w.fs size
  obtain ⟨⟨p, fs₁⟩, halloc⟩ : ∃ r, r = dataAlloc w.fs size := ⟨_, rfl⟩
  unfold Fs.appendFile at hrun
  rw [← halloc] at hrun hentry hhead
  have h₁ : Kept w.fs fs₁ files files := h.kept hhead fun y => ⟨_, _, congrFun hentry y⟩
  dsimp only at hrun
  cases p with
  | none =>
      obtain ⟨-, rfl⟩ := Prod.mk.inj (Except.ok.inj hrun)
      exact h₁
  | some p =>
      obtain ⟨x, -, hrun⟩ := Res.bind_eq_ok.1 hrun
      cases x with
      | none =>
          obtain ⟨-, rfl⟩ := Prod.mk.inj (Except.ok.inj hrun)
          exact h₁
      | some x =>
          dsimp only at hrun
          split at hrun
          · obtain ⟨-, rfl⟩ := Prod.mk.inj (Except.ok.inj hrun)
            exact h₁
          · obtain ⟨fs₂, hlink, hrun⟩ := Res.bind_eq_ok.1 hrun
            obtain ⟨disk, -, hrun⟩ := Res.bind_eq_ok.1 hrun
            obtain ⟨-, rfl⟩ := Prod.mk.inj (Except.ok.inj hrun)
            obtain ⟨hhead₂, hentry₂⟩ := linkBlocks_entry hlink
            apply h₁.trans
            apply h₁.listed.kept hhead₂
            intro y
            obtain ⟨q, hq⟩ := hentry₂ y
            exact ⟨q, _, hq⟩

theorem recycleWalk_entries {fuel x y : Nat} (hrun : recycleWalk fuel fs x = some (fs', y)) :
    fs'.fentry = fs.fentry ∧ fs'.fentryHead = fs.fentryHead := by
  induction fuel generalizing fs x with
  | zero => simp [recycleWalk] at hrun
  | succ fuel ih =>
      rw [recycleWalk] at hrun
      split at hrun
      · obtain ⟨rfl, -⟩ := Prod.mk.inj (Option.some.inj hrun)
        exact ⟨rfl, rfl⟩
      · exact @ih (fs.setOndiskAddr x 0) _ hrun

theorem FileList.recycleBlocks (h : FileList fs files) {head : Option Nat}
    (hrun : recycleBlocks fs head = .ok fs') : Kept fs fs' files files := by
  cases head with
  | none => simp [Fs.recycleBlocks] at hrun
  | some head =>
      obtain ⟨⟨fs₁, x⟩, hwalk, hrun⟩ := Res.bind_eq_ok.1 hrun
      have hwalk' : recycleWalk walkFuel fs head = some (fs₁, x) := by
        cases hw : recycleWalk walkFuel fs head with
        | none => simp [hw] at hwalk
        | some r =>
            rw [hw] at hwalk
            exact congrArg some (Except.ok.inj hwalk)
      obtain ⟨hentry, hhead⟩ := recycleWalk_entries hwalk'
      obtain rfl := Except.ok.inj hrun
      exact h.kept hhead fun y => ⟨_, _, congrFun hentry y⟩

theorem FileList.unlink {l l₂ : List Nat} {px x : Nat} (h : FileList fs (l ++ px :: x :: l₂)) :
    Kept fs (fs.setEntry px { fs.fentry px with nextEntry := fs.nextEntry x })
      (l ++ px :: x :: l₂) (l ++ px :: l₂) := by
  have hsub : (l ++ px :: l₂).Sublist (l ++ px :: x :: l₂) :=
    List.Sublist.append_left (List.Sublist.cons_cons px (List.sublist_cons_self x l₂)) l
  have hnodup := h.file_list.nodup
  have hpx : ∀ y ∈ l ++ l₂, y ≠ px := by
    intro y hy hyp
    subst hyp
    rw [List.nodup_append, List.nodup_cons, List.nodup_cons] at hnodup
    cases List.mem_append.1 hy with
    | inl hy => exact hnodup.2.2 y hy y (by simp) rfl
    | inr hy => exact hnodup.2.1.1 (List.mem_cons_of_mem x hy)
  have hfield : ∀ {β : Type} (f : Fentry → β),
      (∀ e q, f { e with nextEntry := q } = f e) → ∀ y,
      f ((fs.setEntry px { fs.fentry px with nextEntry := fs.nextEntry x }).fentry y) =
        f (fs.fentry y) := by
    intro β f hf y
    by_cases hy : y = px
    · rw [hy]
      exact (congrArg f (if_pos rfl)).trans (hf _ _)
    · exact congrArg f (if_neg hy)
  refine ⟨⟨Chain.unlink h.file_list ?_ ?_, fun y hy => h.addresses y (hsub.subset hy)⟩, hsub,
    hfield Fentry.indexNumber fun _ _ => rfl, hfield Fentry.fileName fun _ _ => rfl⟩
  · simp [FsState.nextEntry, FsState.setEntry]
  · intro y hy
    simp [FsState.nextEntry, FsState.setEntry, hpx y hy]

/-- Deleting unlinks an entry, if it is not the first, and takes no other. -/
theorem FileList.recycleFile (h : FileList fs files) {pid index : Nat} {c : Int}
    (hrun : recycleFile fs pid index = .ok (c, fs')) : ∃ files', Kept fs fs' files files' := by
  obtain ⟨l₁, l₂, rfl, -, -, hscan⟩ := @scan_chain Nat fs.nextEntry
    (fun x => decide (fs.indexNumber x = index)) walkFuel none fs.fentryHead files
    h.file_list h.length_lt
  unfold Fs.recycleFile at hrun
  rw [hscan, Res.ofFuel_some, Res.ok_bind] at hrun
  cases l₂ with
  | nil =>
      obtain ⟨-, rfl⟩ := Prod.mk.inj (Except.ok.inj hrun)
      exact ⟨_, Kept.refl h⟩
  | cons x l₂ =>
      dsimp only [List.head?_cons] at hrun
      split at hrun
      · obtain ⟨-, rfl⟩ := Prod.mk.inj (Except.ok.inj hrun)
        exact ⟨_, Kept.refl h⟩
      · obtain ⟨fs₁, hblocks, hrun⟩ := Res.bind_eq_ok.1 hrun
        obtain ⟨-, rfl⟩ := Prod.mk.inj (Except.ok.inj hrun)
        cases List.eq_nil_or_concat l₁ with
        | inl hnil =>
            subst hnil
            exact ⟨_, h.recycleBlocks hblocks⟩
        | inr hconcat =>
            obtain ⟨l, px, rfl⟩ := hconcat
            rw [List.concat_eq_append] at h hblocks ⊢
            rw [List.getLast?_append, List.getLast?_singleton, Option.some_or, Option.some_or]
              at hblocks
            rw [List.append_assoc, List.singleton_append] at h ⊢
            have hunlink := h.unlink
            exact ⟨_, hunlink.trans (hunlink.listed.recycleBlocks hblocks)⟩

namespace FsSystem

variable {S S' : FsSystem}

theorem descriptorStep_of_callStep {d : FsCall} (hstep : S.callStep d = some S') :
    S.descriptorStep d = some S' ∧ ∀ name n p, d = .keep (.create name n p) → 0 ≤ n := by
  cases d with
  | delete pid index => exact ⟨hstep, by simp⟩
  | keep e =>
      cases e with
      | create name n answer =>
          obtain ⟨⟨c, S₁⟩, hcall, rfl⟩ := Option.map_eq_some_iff.1 hstep
          unfold call at hcall
          dsimp only at hcall
          split at hcall
          case isFalse => simp at hcall
          case isTrue hguard =>
            obtain ⟨r, hres, hpair⟩ := Option.map_eq_some_iff.1 hcall
            obtain ⟨-, rfl⟩ := Prod.mk.inj hpair
            constructor
            · unfold descriptorStep
              dsimp only
              rw [if_pos hguard.2.2, hres]
              rfl
            · rintro name' n' p hd
              obtain ⟨-, rfl, -⟩ := FsEvent.create.inj (FsCall.keep.inj hd)
              exact hguard.1
      | openFile | closeFile | append | read | memory => exact ⟨hstep, by simp⟩

theorem descriptorStep_entries (h : FileList S.w.fs files) {d : FsCall}
    (hstep : S.descriptorStep d = some S') :
    (∃ files', Kept S.w.fs S'.w.fs files files' ∧ ∀ name n p, d = .keep (.create name n (some p)) →
      10 ≤ n ∨ fnameToFd S.w.fs name n = .ok 0) ∨
      ∃ name n p fd, d = .keep (.create name n (some p)) ∧ -4 ≤ n ∧
        Created S.w.fs S'.w.fs files p fd n := by
  cases d with
  | delete pid index =>
      obtain ⟨⟨c, fs'⟩, hres, rfl⟩ := Option.map_eq_some_iff.1 hstep
      obtain ⟨files', hk⟩ := h.recycleFile (Res.toOption_eq_some.1 hres)
      exact Or.inl ⟨files', hk, by simp⟩
  | keep e =>
      cases e with
      | create name n answer =>
          unfold descriptorStep at hstep
          dsimp only at hstep
          split at hstep
          case isFalse => simp at hstep
          case isTrue hfresh =>
            obtain ⟨⟨c, fs'⟩, hres, rfl⟩ := Option.map_eq_some_iff.1 hstep
            cases createFileFromName_cases (Res.toOption_eq_some.1 hres) with
            | inl hsame =>
                obtain ⟨rfl, hwhy⟩ := hsame
                refine Or.inl ⟨files, Kept.refl h, fun name' n' p hd => ?_⟩
                obtain ⟨rfl, rfl, rfl⟩ := FsEvent.create.inj (FsCall.keep.inj hd)
                exact hwhy.resolve_left (Option.some_ne_none p)
            | inr hnew =>
                obtain ⟨p, fd, rfl, hfd, -, hn, rfl⟩ := hnew
                obtain ⟨hbounds, hp⟩ := freshAnswer_spec h hfresh
                exact Or.inr ⟨name, n, p, fd, rfl, hn, h.created hp hbounds hfd⟩
      | openFile pid index =>
          obtain ⟨⟨c, S₁⟩, hcall, rfl⟩ := Option.map_eq_some_iff.1 hstep
          obtain ⟨⟨c, fs'⟩, hres, hpair⟩ := Option.map_eq_some_iff.1 hcall
          obtain ⟨-, rfl⟩ := Prod.mk.inj hpair
          exact Or.inl ⟨files, h.openFile (Res.toOption_eq_some.1 hres), by simp⟩
      | closeFile pid index =>
          obtain ⟨⟨c, S₁⟩, hcall, rfl⟩ := Option.map_eq_some_iff.1 hstep
          obtain ⟨⟨c, fs'⟩, hres, hpair⟩ := Option.map_eq_some_iff.1 hcall
          obtain ⟨-, rfl⟩ := Prod.mk.inj hpair
          exact Or.inl ⟨files, h.closeFile (Res.toOption_eq_some.1 hres), by simp⟩
      | append pid index addr size io =>
          obtain ⟨⟨c, S₁⟩, hcall, rfl⟩ := Option.map_eq_some_iff.1 hstep
          obtain ⟨⟨c, w'⟩, hres, hpair⟩ := Option.map_eq_some_iff.1 hcall
          obtain ⟨-, rfl⟩ := Prod.mk.inj hpair
          exact Or.inl ⟨files, h.appendFile (Res.toOption_eq_some.1 hres), by simp⟩
      | read pid index pos size buf io =>
          obtain ⟨⟨c, S₁⟩, hcall, rfl⟩ := Option.map_eq_some_iff.1 hstep
          obtain ⟨⟨r, w'⟩, hres, hpair⟩ := Option.map_eq_some_iff.1 hcall
          obtain ⟨-, rfl⟩ := Prod.mk.inj hpair
          have hfs := (readDatablock_frame (Res.toOption_eq_some.1 hres)).1
          refine Or.inl ⟨files, ?_, by simp⟩
          show Kept S.w.fs w'.fs files files
          rw [hfs]
          exact Kept.refl h
      | memory m =>
          obtain rfl := Option.some.inj hstep
          exact Or.inl ⟨files, Kept.refl h, by simp⟩

theorem callStep_entries (h : FileList S.w.fs files) {d : FsCall} (hstep : S.callStep d = some S') :
    (∃ files', Kept S.w.fs S'.w.fs files files') ∨
      ∃ p fd n, 0 ≤ n ∧ Created S.w.fs S'.w.fs files p fd n := by
  obtain ⟨hany, hproper⟩ := descriptorStep_of_callStep hstep
  rcases descriptorStep_entries h hany with ⟨files', hk, -⟩ | hnew
  · exact Or.inl ⟨files', hk⟩
  · obtain ⟨name, n, p, fd, hd, -, hcreated⟩ := hnew
    exact Or.inr ⟨p, fd, n, hproper name n (some p) hd, hcreated⟩

end FsSystem

end Aimv6.Fs
