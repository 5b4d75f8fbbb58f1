import Aimv6.Fs.FsDescriptors

/-! # Names

`create_file_from_name` stores zeros where the name belongs, and compares the
answer of `fname_to_fd` with a value that it never gives. So no file is ever
found by a name, in any state that creating, opening, appending, reading and
deleting lead to.
-/

namespace Aimv6.Fs

open Support

variable {fs fs' : FsState} {files files' : List Nat}

/-- No file on the list has the name. -/
structure Unnamed (name : Nat → UInt8) (n : Nat) (fs : FsState) (files : List Nat) : Prop where
  listed : FileList fs files
  others : ∀ x ∈ files, (fs.fentry x).hasName name n = false

section Name

variable {name : Nat → UInt8} {n : Nat}

theorem hasName_congr {e e' : Fentry} (h : e'.fileName = e.fileName) :
    e'.hasName name n = e.hasName name n := by
  unfold Fentry.hasName Fentry.nameByte
  rw [if_neg (by omega), if_neg (by omega), h]

theorem newEntry_hasName (hn : 1 ≤ n) (hname : name 0 ≠ 0) (fs : FsState) (p fd : Nat) {m : Int}
    (hm : 0 ≤ m) : (newEntry fs p fd m).hasName name n = false := by
  have hfirst : ((newEntry fs p fd m).fileName (Fin.ofNat 10 0) == name 0) = false :=
    beq_false_of_ne ((if_pos hm).trans_ne hname.symm)
  have hall : ((List.range n).all fun j =>
      (newEntry fs p fd m).fileName (Fin.ofNat 10 j) == name j) = false :=
    List.all_eq_false.2 ⟨0, List.mem_range.2 hn, by rw [hfirst]; decide⟩
  unfold Fentry.hasName
  rw [Int.toNat_natCast, hall, Bool.false_and]

namespace Unnamed

theorem kept (h : Unnamed name n fs files) (hk : Kept fs fs' files files') :
    Unnamed name n fs' files' where
  listed := hk.listed
  others := fun x hx => (hasName_congr (hk.name x)).trans (h.others x (hk.sublist.subset hx))

theorem created (h : Unnamed name n fs files) (hn : 1 ≤ n) (hname : name 0 ≠ 0) {p fd : Nat}
    {m : Int} (hm : 0 ≤ m) (hc : Created fs fs' files p fd m) : Unnamed name n fs' (p :: files) where
  listed := hc.listed
  others := by
    intro x hx
    cases List.mem_cons.1 hx with
    | inl hxp =>
        rw [hxp, hc.self]
        exact newEntry_hasName hn hname fs p fd hm
    | inr hx =>
        rw [hc.others x hx]
        exact h.others x hx

theorem fnameToFd (h : Unnamed name n fs files) : fnameToFd fs name n = .ok (-1) := by
  unfold Fs.fnameToFd
  split
  · rfl
  · obtain ⟨l₁, l₂, rfl, -, h₂, hfind⟩ := h.listed.find_spec fun e => e.hasName name n
    rw [if_neg (by omega), hfind, Res.ok_bind]
    cases l₂ with
    | nil => rfl
    | cons x l₂ => exact absurd (h₂ x rfl) (by rw [h.others x (by simp)]; decide)

end Unnamed

namespace FsSystem

variable {S S' : FsSystem}

theorem unnamed_step (hn : 1 ≤ n) (hname : name 0 ≠ 0) {d : FsCall}
    (h : ∃ files, Unnamed name n S.w.fs files) (hstep : S.callStep d = some S') :
    ∃ files, Unnamed name n S'.w.fs files := by
  obtain ⟨files, h⟩ := h
  cases callStep_entries h.listed hstep with
  | inl hkept =>
      obtain ⟨files', hk⟩ := hkept
      exact ⟨files', h.kept hk⟩
  | inr hcreated =>
      obtain ⟨p, fd, m, hm, hc⟩ := hcreated
      exact ⟨p :: files, h.created hn hname hm hc⟩

theorem unnamed_run (hn : 1 ≤ n) (hname : name 0 ≠ 0) {ds : List FsCall}
    (h : ∃ files, Unnamed name n S.w.fs files) (hrun : run callStep S ds = some S') :
    ∃ files, Unnamed name n S'.w.fs files :=
  run_invariant (fun _ _ _ h hstep => unnamed_step hn hname h hstep) h hrun

/-- From any state without the name, whatever led to it, a file created with the name is found by
it at no later time. -/
theorem unnamed_lost (hn : 1 ≤ n) (hn' : n ≤ 9) (hname : name 0 ≠ 0)
    (h : ∃ files, Unnamed name n S.w.fs files) {answer : Option Nat} {fd : Int}
    (hcreate : S.call (.create name n answer) = some (fd, S')) (hfd : 0 < fd) :
    ∀ later S₂, run callStep S' later = some S₂ →
      fnameToFd S₂.w.fs name n = .ok (-1) ∧ fnameToFd S₂.w.fs name n ≠ .ok fd ∧
      (∀ pid, sysOpen S₂.w.fs pid name n = .ok (-1, S₂.w.fs)) ∧
      ∀ p, S₂.w.fs.freshAnswer (some p) = true →
        ∃ fd₂ S₃, S₂.call (.create name n (some p)) = some (fd₂, S₃) ∧ 0 < fd₂ := by
  intro later S₂ hlater
  have hstep : S.callStep (.keep (.create name n answer)) = some S' :=
    Option.map_eq_some_iff.2 ⟨_, hcreate, rfl⟩
  obtain ⟨files, h⟩ := unnamed_run hn hname (unnamed_step hn hname h hstep) hlater
  have hlost := h.fnameToFd
  refine ⟨hlost, ?_, fun pid => ?_, fun p hp => ?_⟩
  · rw [hlost]
    intro hc
    have hminus := Except.ok.inj hc
    omega
  · unfold sysOpen
    rw [hlost, Res.ok_bind]
    exact if_pos rfl
  · obtain ⟨r, hr⟩ := h.listed.unusedFd_returns 1
    have hpos := (h.listed.unusedFd_spec hr).1
    have hmade := @createFileFromName_unused S₂.w.fs name n p r (-1) (by omega) (by omega) hlost
      (by decide) hr
    refine ⟨r, { S₂ with w := { S₂.w with
      fs := { S₂.w.fs.setEntry p (newEntry S₂.w.fs p r n) with fentryHead := some p } } }, ?_, by omega⟩
    unfold call
    dsimp only
    rw [if_pos ⟨by omega, by omega, hp⟩, hmade]
    rfl

end FsSystem

end Name

namespace FsSystem

variable {S S' : FsSystem}

/-- A file that `create_file_from_name` made is found by its name at no later time: the lookup and
the call of `_open` fail, and the name can be created once more. -/
theorem created_name_lost {w₀ : World} {ds : List FsCall} {name : Nat → UInt8} {n : Nat}
    {answer : Option Nat} {fd : Int} (hrun : run callStep (init w₀) ds = some S) (hn : 1 ≤ n)
    (hn' : n ≤ 9) (hname : ∀ j < n, name j ≠ 0)
    (hcreate : S.call (.create name n answer) = some (fd, S')) (hfd : 0 < fd) :
    ∀ later S₂, run callStep S' later = some S₂ →
      fnameToFd S₂.w.fs name n = .ok (-1) ∧ fnameToFd S₂.w.fs name n ≠ .ok fd ∧
      (∀ pid, sysOpen S₂.w.fs pid name n = .ok (-1, S₂.w.fs)) ∧
      ∀ p, S₂.w.fs.freshAnswer (some p) = true →
        ∃ fd₂ S₃, S₂.call (.create name n (some p)) = some (fd₂, S₃) ∧ 0 < fd₂ := by
  have hinit : ∃ files, Unnamed name n (init w₀).w.fs files := ⟨[], ⟨rfl, by simp⟩, by simp⟩
  exact unnamed_lost hn hn' (hname 0 hn) (unnamed_run hn (hname 0 hn) hinit hrun) hcreate hfd

theorem create_a_returns : ((init blank).call (.create (fun _ => 97) 1 (some 2155880440))).map
    (fun r => (r.1, fnameToFd r.2.w.fs (fun _ => 97) 1)) = some (1, .ok (-1)) := by
  decide +kernel

theorem created_name_fails : ∃ S : FsSystem,
    (init blank).call (.create (fun _ => 97) 1 (some 2155880440)) = some (1, S) ∧
      fnameToFd S.w.fs (fun _ => 97) 1 ≠ .ok 1 := by
  obtain ⟨⟨fd, S⟩, hcall, hpair⟩ := Option.map_eq_some_iff.1 create_a_returns
  obtain ⟨rfl, hlost⟩ := Prod.mk.inj hpair
  refine ⟨S, hcall, ?_⟩
  rw [hlost]
  simp

theorem created_name_lost_sample : ∃ S : FsSystem,
    (init blank).call (.create (fun _ => 97) 1 (some 2155880440)) = some (1, S) ∧
      sysOpen S.w.fs 7 (fun _ => 97) 1 = .ok (-1, S.w.fs) := by
  obtain ⟨⟨fd, S⟩, hcall, hpair⟩ := Option.map_eq_some_iff.1 create_a_returns
  obtain ⟨rfl, -⟩ := Prod.mk.inj hpair
  have hlost := @created_name_lost (init blank) S blank [] (fun _ => 97) 1 (some 2155880440) 1 rfl
    (by decide) (by decide) (by decide) hcall (by decide) [] S rfl
  exact ⟨S, hcall, hlost.2.2.1 7⟩

end FsSystem

end Aimv6.Fs
