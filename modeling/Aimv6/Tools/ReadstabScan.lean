import Aimv6.Tools.Readstab
import Mathlib.Tactic.IntervalCases

/-! # The two scans

Each iteration of the scan in `readstab64` leaves the position at the next
header. In `readstab32` the iteration that loads the strings leaves it behind
them, so that every header read later is one only where the strings end at the
next header.
-/

namespace Aimv6.Tools

open Support

/-- What a section is, whatever the word size of the file. -/
structure Section where
  name : List UInt8
  contents : List UInt8
deriving DecidableEq, Repr

/-- The bytes of header `i` in the file. -/
def header (L : Shdr) (file : List UInt8) (eh : Ehdr) (i : Nat) : List UInt8 :=
  (file.drop (eh.eShoff + i * L.sizeof)).take L.sizeof

/-- The contents of `t` are where header `i` says. -/
structure Stored (L : Shdr) (host : Host) (file : List UInt8) (eh : Ehdr) (i : Nat) (t : Section) :
    Prop where
  size : host.field (header L file eh i) L.shSize = t.contents.length
  inside : host.field (header L file eh i) L.shOffset + t.contents.length ≤ file.length
  contents : (file.drop (host.field (header L file eh i) L.shOffset)).take t.contents.length =
    t.contents

/-- A well-formed file with the sections `S`, in the order of their headers. Of the sections that the
reader does not load nothing is said of the contents. -/
structure Describes (L : Shdr) (host : Host) (file : List UInt8) (eh : Ehdr) (S : List Section) :
    Prop where
  file_size : file.length < 9223372036854775808
  entry_size : eh.eShentsize = L.sizeof
  count : eh.eShnum = S.length
  table : eh.eShoff + S.length * L.sizeof ≤ file.length
  names : ∃ t, S[eh.eShstrndx]? = some t ∧ Stored L host file eh eh.eShstrndx t ∧
    ∀ i u, S[i]? = some u →
      u.name ++ [0] <+: t.contents.drop (host.field (header L file eh i) L.shName)
  name_chars : ∀ u ∈ S, (0 : UInt8) ∉ u.name
  stored : ∀ i t, S[i]? = some t → t.name = STABSTR ∨ t.name = STABS → Stored L host file eh i t

def Allocates (host : Host) (S : List Section) : Prop :=
  ∀ t ∈ S, host.malloc t.contents.length = true

/-- The last of the first `i` sections with a name. -/
def lastNamed (S : List Section) (name : List UInt8) : Nat → Option Nat
  | 0 => none
  | i + 1 => if (S[i]?.any fun t => t.name == name) then some i else lastNamed S name i

/-- The variables of the reader behind `i` iterations of a scan that has read the first `i` headers,
but for the position. -/
structure Seen (L : Shdr) (file : List UInt8) (eh : Ehdr) (S : List Section) (i : Nat) (s : Scan) :
    Prop where
  es : s.es.length = L.sizeof
  last : ∀ j, j + 1 = i → s.es = header L file eh j
  stabstr : s.stabstr = (lastNamed S STABSTR i).bind fun j => S[j]?.map Section.contents
  esStab : s.esStab = (lastNamed S STABS i).map (header L file eh)

/-- The part of an iteration that is the same in both readers: `s` has the header that was read. -/
def visit (L : Shdr) (host : Host) (file shstrtab : List UInt8) (s : Scan) : Except Exit Scan := do
  let name := shstrtab.drop (host.field s.es L.shName)
  if ← strcmpEq name STABSTR then
    let (stabstr, pos) ← loadStabstr L host file s.es
    .ok { s with
      stabstr := some stabstr
      pos := pos }
  else if ← strcmpEq name STABS then .ok { s with esStab := some s.es }
  else .ok s

/-! ## System calls -/

theorem ok_bind {α β : Type} (a : α) (f : α → Except Exit β) :
    ((Except.ok a : Except Exit α) >>= f) = f a := rfl

theorem read_inside {file old : List UInt8} {pos n : Nat} (hn : old.length = n)
    (h : pos + n ≤ file.length) : read file pos old = ((file.drop pos).take n, pos + n) := by
  subst hn
  have hlen : ((file.drop pos).take old.length).length = old.length := by
    rw [List.length_take, List.length_drop]
    omega
  unfold read
  dsimp only
  rw [hlen, List.drop_length, List.append_nil]

theorem lseek_ok {off : Nat} (h : off < 9223372036854775808) : lseek off = .ok off := if_pos h

theorem malloc_ok {host : Host} {n : Nat} (h : host.malloc n = true) :
    malloc host n = .ok (host.fresh n) := if_pos h

theorem strcmpEq_name {name rest lit : List UInt8} (h : name ++ [0] <+: rest)
    (hname : (0 : UInt8) ∉ name) (hlit : (0 : UInt8) ∉ lit) :
    strcmpEq rest lit = .ok (decide (name = lit)) := by
  induction name generalizing rest lit with
  | nil =>
      obtain ⟨tail, rfl⟩ := h
      cases lit with
      | nil => rfl
      | cons d lit =>
          have hd : (0 : UInt8) ≠ d := fun hc => hlit (by simp [hc])
          simp [strcmpEq, hd]
  | cons c name ih =>
      obtain ⟨tail, rfl⟩ := h
      have hc : c ≠ 0 := fun hc => hname (by simp [hc])
      cases lit with
      | nil => simp [strcmpEq, hc]
      | cons d lit =>
          have hrest : name ++ [0] <+: name ++ [0] ++ tail := List.prefix_append _ _
          have hnext := ih hrest (fun hm => hname (List.mem_cons_of_mem c hm))
            fun hm => hlit (List.mem_cons_of_mem d hm)
          by_cases hcd : c = d
          · rw [hcd]
            simpa [strcmpEq] using hnext
          · simp [strcmpEq, hcd]

/-! ## One iteration -/

section Iteration

variable {L : Shdr} {host : Host} {file : List UInt8} {eh : Ehdr} {S : List Section} {i : Nat}
  {s : Scan} {t u : Section}

theorem Describes.read_header (h : Describes L host file eh S) (hi : i < S.length)
    (hpos : s.pos = eh.eShoff + i * L.sizeof) (hes : s.es.length = L.sizeof) :
    read file s.pos s.es = (header L file eh i, eh.eShoff + (i + 1) * L.sizeof) := by
  have htable := h.table
  have hle : (i + 1) * L.sizeof ≤ S.length * L.sizeof := Nat.mul_le_mul_right _ hi
  rw [Nat.add_mul, Nat.one_mul] at hle
  rw [read_inside hes (by omega), hpos, Nat.add_mul, Nat.one_mul, ← Nat.add_assoc]
  rfl

theorem Describes.table_lt (h : Describes L host file eh S) (hi : i ≤ S.length) :
    eh.eShoff + i * L.sizeof < 9223372036854775808 := by
  have htable := h.table
  have hsize := h.file_size
  have hle : i * L.sizeof ≤ S.length * L.sizeof := Nat.mul_le_mul_right _ hi
  omega

theorem Stored.load (h : Stored L host file eh i t) (hsize : file.length < 9223372036854775808)
    (hmem : host.malloc t.contents.length = true) :
    loadStabstr L host file (header L file eh i) =
      .ok (t.contents, host.field (header L file eh i) L.shOffset + t.contents.length) := by
  have hinside := h.inside
  unfold loadStabstr
  rw [h.size, malloc_ok hmem, ok_bind, lseek_ok (by omega), ok_bind,
    read_inside (host.fresh_length _) hinside, h.contents]

theorem header_length (h : Describes L host file eh S) (hi : i < S.length) :
    (header L file eh i).length = L.sizeof := by
  have htable := h.table
  have hle : (i + 1) * L.sizeof ≤ S.length * L.sizeof := Nat.mul_le_mul_right _ hi
  rw [Nat.add_mul, Nat.one_mul] at hle
  unfold header
  rw [List.length_take, List.length_drop]
  omega

theorem Describes.loadNames (h : Describes L host file eh S) (hmem : Allocates host S)
    (ht : S[eh.eShstrndx]? = some t) (hst : Stored L host file eh eh.eShstrndx t) :
    ∃ s, loadNames L host file eh = .ok (t.contents, s) ∧ s.pos = eh.eShoff ∧
      Seen L file eh S 0 s := by
  have hlt : eh.eShstrndx < S.length := (List.getElem?_eq_some_iff.1 ht).1
  have hpos := h.table_lt (Nat.le_of_lt hlt)
  have hread := @Describes.read_header L host file eh S eh.eShstrndx
    ⟨eh.eShoff + eh.eShstrndx * L.sizeof, host.fresh L.sizeof, none, none⟩ h hlt rfl
    (host.fresh_length _)
  dsimp only at hread
  have hinside := hst.inside
  have hsize := h.file_size
  refine ⟨⟨eh.eShoff, header L file eh eh.eShstrndx, none, none⟩, ?_, rfl, header_length h hlt,
    fun j hj => by omega, rfl, rfl⟩
  unfold Tools.loadNames
  rw [lseek_ok (by omega), ok_bind, h.entry_size, Nat.mul_comm, lseek_ok hpos, ok_bind, hread]
  dsimp only
  rw [hst.size, malloc_ok (hmem t (List.mem_of_getElem? ht)), ok_bind, lseek_ok (by omega), ok_bind,
    read_inside (host.fresh_length _) hinside, hst.contents]
  rfl

theorem Seen.next (h : Seen L file eh S i s) (hu : S[i]? = some u) {s' : Scan}
    (hlen : (header L file eh i).length = L.sizeof) (hes : s'.es = header L file eh i)
    (hstabstr : s'.stabstr = if u.name = STABSTR then some u.contents else s.stabstr)
    (hstab : s'.esStab = if u.name = STABS then some (header L file eh i) else s.esStab) :
    Seen L file eh S (i + 1) s' := by
  have hlast : ∀ name, lastNamed S name (i + 1) =
      if u.name = name then some i else lastNamed S name i := by
    intro name
    rw [lastNamed, hu]
    simp
  refine ⟨hes ▸ hlen, fun j hj => ?_, ?_, ?_⟩
  · obtain rfl : j = i := by omega
    exact hes
  · rw [hstabstr, hlast]
    split
    · rw [Option.bind_some, hu]
      rfl
    · exact h.stabstr
  · rw [hstab, hlast]
    split
    · rfl
    · exact h.esStab

theorem Describes.compare (h : Describes L host file eh S) (ht : S[eh.eShstrndx]? = some t)
    (hu : S[i]? = some u) :
    strcmpEq (t.contents.drop (host.field (header L file eh i) L.shName)) STABSTR =
        .ok (decide (u.name = STABSTR)) ∧
      strcmpEq (t.contents.drop (host.field (header L file eh i) L.shName)) STABS =
        .ok (decide (u.name = STABS)) := by
  obtain ⟨t', ht', -, hnames⟩ := h.names
  obtain rfl := Option.some.inj (ht'.symm.trans ht)
  have hprefix := hnames i u hu
  have hchars := h.name_chars u (List.mem_of_getElem? hu)
  exact ⟨strcmpEq_name hprefix hchars (by decide), strcmpEq_name hprefix hchars (by decide)⟩

end Iteration

theorem scan64_eq (host : Host) (file shstrtab : List UInt8) (i : Nat) (s : Scan) :
    scan64 host file shstrtab i s = (do
      let (es, cur) := read file s.pos s.es
      let s ← visit ELF64_SHDR host file shstrtab ⟨cur, es, s.stabstr, s.esStab⟩
      let pos ← lseek cur
      .ok { s with pos := pos }) := by
  unfold scan64 visit
  dsimp only
  cases strcmpEq (shstrtab.drop (host.field (read file s.pos s.es).1 ELF64_SHDR.shName)) STABSTR with
  | error e => rfl
  | ok isStabstr =>
      cases isStabstr with
      | true => cases loadStabstr ELF64_SHDR host file (read file s.pos s.es).1 <;> rfl
      | false =>
          cases strcmpEq (shstrtab.drop (host.field (read file s.pos s.es).1 ELF64_SHDR.shName))
            STABS with
          | error e => rfl
          | ok isStabs => cases isStabs <;> rfl

theorem scan32_eq (host : Host) (file shstrtab : List UInt8) (i : Nat) (s : Scan) :
    scan32 host file shstrtab i s = (do
      let (es, pos) := read file s.pos s.es
      visit ELF32_SHDR host file shstrtab ⟨pos, es, s.stabstr, s.esStab⟩) := rfl

section Scans

variable {host : Host} {file : List UInt8} {eh : Ehdr} {S : List Section} {i : Nat} {s : Scan}
  {t u : Section}

/-- What an iteration in either reader makes of the header that it has read. -/
theorem visit_header {L : Shdr} {pos : Nat} (h : Describes L host file eh S)
    (hmem : Allocates host S) (ht : S[eh.eShstrndx]? = some t) (hu : S[i]? = some u)
    (hseen : Seen L file eh S i s) :
    ∃ s', visit L host file t.contents ⟨pos, header L file eh i, s.stabstr, s.esStab⟩ = .ok s' ∧
      s'.pos = (if u.name = STABSTR then
          host.field (header L file eh i) L.shOffset + u.contents.length
        else pos) ∧
      Seen L file eh S (i + 1) s' := by
  have hlt : i < S.length := (List.getElem?_eq_some_iff.1 hu).1
  obtain ⟨hstabstr, hstabs⟩ := h.compare ht hu
  have hlen := header_length h hlt
  unfold visit
  dsimp only
  rw [hstabstr, ok_bind]
  by_cases hname : u.name = STABSTR
  · have hload := (h.stored i u hu (Or.inl hname)).load h.file_size
      (hmem u (List.mem_of_getElem? hu))
    have hother : u.name ≠ STABS := by
      rw [hname]
      decide
    rw [if_pos (decide_eq_true hname), hload, ok_bind]
    refine ⟨_, rfl, (if_pos hname).symm, hseen.next hu hlen rfl ?_ ?_⟩
    · rw [if_pos hname]
    · rw [if_neg hother]
  · rw [if_neg (by simpa using hname), hstabs, ok_bind, if_neg hname]
    by_cases hstab : u.name = STABS
    · rw [if_pos (decide_eq_true hstab)]
      refine ⟨_, rfl, rfl, hseen.next hu hlen rfl ?_ ?_⟩
      · rw [if_neg hname]
      · rw [if_pos hstab]
    · rw [if_neg (by simpa using hstab)]
      refine ⟨_, rfl, rfl, hseen.next hu hlen rfl ?_ ?_⟩
      · rw [if_neg hname]
      · rw [if_neg hstab]

theorem scan64_step (h : Describes ELF64_SHDR host file eh S) (hmem : Allocates host S)
    (ht : S[eh.eShstrndx]? = some t) (hu : S[i]? = some u)
    (hpos : s.pos = eh.eShoff + i * ELF64_SHDR.sizeof) (hseen : Seen ELF64_SHDR file eh S i s) :
    ∃ s', scan64 host file t.contents i s = .ok s' ∧
      s'.pos = eh.eShoff + (i + 1) * ELF64_SHDR.sizeof ∧ Seen ELF64_SHDR file eh S (i + 1) s' := by
  have hlt : i < S.length := (List.getElem?_eq_some_iff.1 hu).1
  obtain ⟨s', hvisit, -, hnext⟩ := visit_header h hmem ht hu hseen
  rw [scan64_eq, h.read_header hlt hpos hseen.es]
  dsimp only
  rw [hvisit, ok_bind, lseek_ok (h.table_lt hlt), ok_bind]
  exact ⟨_, rfl, rfl, hnext.es, hnext.last, hnext.stabstr, hnext.esStab⟩

/-- An iteration in `readstab32` leaves the position behind the strings if it loads them. -/
theorem scan32_step (h : Describes ELF32_SHDR host file eh S) (hmem : Allocates host S)
    (ht : S[eh.eShstrndx]? = some t) (hu : S[i]? = some u)
    (hpos : s.pos = eh.eShoff + i * ELF32_SHDR.sizeof) (hseen : Seen ELF32_SHDR file eh S i s) :
    ∃ s', scan32 host file t.contents i s = .ok s' ∧
      s'.pos = (if u.name = STABSTR then
          host.field (header ELF32_SHDR file eh i) ELF32_SHDR.shOffset + u.contents.length
        else eh.eShoff + (i + 1) * ELF32_SHDR.sizeof) ∧
      Seen ELF32_SHDR file eh S (i + 1) s' := by
  have hlt : i < S.length := (List.getElem?_eq_some_iff.1 hu).1
  rw [scan32_eq, h.read_header hlt hpos hseen.es]
  exact visit_header h hmem ht hu hseen

end Scans

/-! ## The scans -/

/-- Iteration `i` of a scan reads header `i`. -/
def ReadsHeaders (L : Shdr) (eh : Ehdr) (sections : Nat → Except Exit Scan) : Prop :=
  ∀ i < eh.eShnum, ∃ s, sections i = .ok s ∧ s.pos = eh.eShoff + i * L.sizeof

/-- `readstab32` reads the headers one after another, and finds the strings and the header of the
stabs that `readstab64` finds in the other form of the file. -/
structure Agrees (host : Host) (S : List Section) (file32 : List UInt8) (eh32 : Ehdr)
    (file64 : List UInt8) (eh64 : Ehdr) : Prop where
  reads : ReadsHeaders ELF32_SHDR eh32 (sections32 host file32 eh32)
  found : ∃ s32 s64, sections32 host file32 eh32 eh32.eShnum = .ok s32 ∧
    sections64 host file64 eh64 eh64.eShnum = .ok s64 ∧ s32.stabstr = s64.stabstr ∧
    s32.stabstr = ((lastNamed S STABSTR S.length).bind fun j => S[j]?.map Section.contents) ∧
    s32.esStab = (lastNamed S STABS S.length).map (header ELF32_SHDR file32 eh32) ∧
    s64.esStab = (lastNamed S STABS S.length).map (header ELF64_SHDR file64 eh64)

/-- Strings that another header comes behind end in the file where that header starts. -/
def StringsInPlace (host : Host) (file : List UInt8) (eh : Ehdr) (S : List Section) : Prop :=
  ∀ i t, S[i]? = some t → t.name = STABSTR → i + 1 < S.length →
    host.field (header ELF32_SHDR file eh i) ELF32_SHDR.shOffset + t.contents.length =
      eh.eShoff + (i + 1) * ELF32_SHDR.sizeof

section Runs

variable {L : Shdr} {host : Host} {file : List UInt8} {eh : Ehdr} {S : List Section} {s₀ : Scan}
  {f : Nat → Scan → Except Exit Scan}

theorem loopUp_seen
    (hstep : ∀ i s u, S[i]? = some u → s.pos = eh.eShoff + i * L.sizeof → Seen L file eh S i s →
      ∃ s', f i s = .ok s' ∧ (i + 1 < S.length → s'.pos = eh.eShoff + (i + 1) * L.sizeof) ∧
        Seen L file eh S (i + 1) s')
    (hpos : s₀.pos = eh.eShoff) (hseen : Seen L file eh S 0 s₀) (i : Nat) (hi : i ≤ S.length) :
    ∃ s, loopUp f i 0 s₀ = .ok s ∧ (i < S.length → s.pos = eh.eShoff + i * L.sizeof) ∧
      Seen L file eh S i s := by
  induction i with
  | zero => exact ⟨s₀, rfl, fun _ => by rw [hpos, Nat.zero_mul, Nat.add_zero], hseen⟩
  | succ i ih =>
      obtain ⟨s, hrun, hs, hsi⟩ := ih (by omega)
      have hget : S[i]? = some S[i] := List.getElem?_eq_getElem (by omega)
      obtain ⟨s', hnext, hpos', hseen'⟩ := hstep i s _ hget (hs (by omega)) hsi
      refine ⟨s', ?_, hpos', hseen'⟩
      rw [loopUp_concat, hrun, ok_bind, Nat.zero_add]
      exact hnext

theorem loopUp_seen_of_reads
    (hstep : ∀ i s u, S[i]? = some u → s.pos = eh.eShoff + i * L.sizeof → Seen L file eh S i s →
      ∃ s', f i s = .ok s' ∧ Seen L file eh S (i + 1) s')
    (hreads : ∀ i < S.length, ∃ s, loopUp f i 0 s₀ = .ok s ∧ s.pos = eh.eShoff + i * L.sizeof)
    (hseen : Seen L file eh S 0 s₀) (i : Nat) (hi : i < S.length) :
    ∃ s, loopUp f i 0 s₀ = .ok s ∧ s.pos = eh.eShoff + i * L.sizeof ∧ Seen L file eh S i s := by
  obtain ⟨s, hrun, hs⟩ := hreads i hi
  refine ⟨s, hrun, hs, ?_⟩
  induction i generalizing s with
  | zero =>
      obtain rfl : s₀ = s := Except.ok.inj hrun
      exact hseen
  | succ i ih =>
      obtain ⟨s₁, hrun₁, hs₁⟩ := hreads i (by omega)
      have hget : S[i]? = some S[i] := List.getElem?_eq_getElem (by omega)
      obtain ⟨s', hnext, hseen'⟩ := hstep i s₁ _ hget hs₁ (ih (by omega) s₁ hrun₁ hs₁)
      rw [loopUp_concat, hrun₁, ok_bind, Nat.zero_add, hnext] at hrun
      obtain rfl := Except.ok.inj hrun
      exact hseen'

theorem sections64_seen (h : Describes ELF64_SHDR host file eh S) (hmem : Allocates host S) (i : Nat)
    (hi : i ≤ S.length) : ∃ s, sections64 host file eh i = .ok s ∧
      (i < S.length → s.pos = eh.eShoff + i * ELF64_SHDR.sizeof) ∧
      Seen ELF64_SHDR file eh S i s := by
  obtain ⟨t, ht, hst, -⟩ := h.names
  obtain ⟨s₀, hload, hpos, hseen⟩ := h.loadNames hmem ht hst
  unfold sections64
  rw [hload, ok_bind]
  refine loopUp_seen (fun i s u hu hs hsi => ?_) hpos hseen i hi
  obtain ⟨s', hnext, hpos', hseen'⟩ := scan64_step h hmem ht hu hs hsi
  exact ⟨s', hnext, fun _ => hpos', hseen'⟩

theorem sections32_seen (h : Describes ELF32_SHDR host file eh S) (hmem : Allocates host S)
    (hplace : StringsInPlace host file eh S) (i : Nat) (hi : i ≤ S.length) :
    ∃ s, sections32 host file eh i = .ok s ∧
      (i < S.length → s.pos = eh.eShoff + i * ELF32_SHDR.sizeof) ∧
      Seen ELF32_SHDR file eh S i s := by
  obtain ⟨t, ht, hst, -⟩ := h.names
  obtain ⟨s₀, hload, hpos, hseen⟩ := h.loadNames hmem ht hst
  unfold sections32
  rw [hload, ok_bind]
  refine loopUp_seen (fun i s u hu hs hsi => ?_) hpos hseen i hi
  obtain ⟨s', hnext, hpos', hseen'⟩ := scan32_step h hmem ht hu hs hsi
  refine ⟨s', hnext, fun hlt => ?_, hseen'⟩
  by_cases hname : u.name = STABSTR
  · rw [hpos', if_pos hname]
    exact hplace i u hu hname hlt
  · rw [hpos', if_neg hname]

theorem stringsInPlace_of_reads (h : Describes ELF32_SHDR host file eh S) (hmem : Allocates host S)
    (hreads : ReadsHeaders ELF32_SHDR eh (sections32 host file eh)) :
    StringsInPlace host file eh S := by
  intro i u hu hname hlt
  obtain ⟨t, ht, hst, -⟩ := h.names
  obtain ⟨s₀, hload, hpos, hseen⟩ := h.loadNames hmem ht hst
  have hloop : ∀ j, sections32 host file eh j = loopUp (scan32 host file t.contents) j 0 s₀ := by
    intro j
    unfold sections32
    rw [hload, ok_bind]
  have hall : ∀ j < S.length, ∃ s, loopUp (scan32 host file t.contents) j 0 s₀ = .ok s ∧
      s.pos = eh.eShoff + j * ELF32_SHDR.sizeof := by
    intro j hj
    rw [← hloop]
    exact hreads j (by rwa [h.count])
  obtain ⟨s, hrun, hs, hsi⟩ := loopUp_seen_of_reads (fun j s v hv hs hsj => by
    obtain ⟨s', hnext, -, hseen'⟩ := scan32_step h hmem ht hv hs hsj
    exact ⟨s', hnext, hseen'⟩) hall hseen i (by omega)
  obtain ⟨s', hnext, hpos', -⟩ := scan32_step h hmem ht hu hs hsi
  obtain ⟨s'', hrun'', hs''⟩ := hall (i + 1) hlt
  rw [loopUp_concat, hrun, ok_bind, Nat.zero_add, hnext] at hrun''
  obtain rfl := Except.ok.inj hrun''
  rw [← hs'', hpos', if_pos hname]

end Runs

/-- For a file in both forms `readstab64` reads header after header, and `readstab32` agrees with it
exactly where strings that another header comes behind end at that header. -/
theorem readstab_agrees_iff {host : Host} {S : List Section} {file32 file64 : List UInt8}
    {eh32 eh64 : Ehdr} (h32 : Describes ELF32_SHDR host file32 eh32 S)
    (h64 : Describes ELF64_SHDR host file64 eh64 S) (hmem : Allocates host S) :
    ReadsHeaders ELF64_SHDR eh64 (sections64 host file64 eh64) ∧
      (Agrees host S file32 eh32 file64 eh64 ↔ StringsInPlace host file32 eh32 S) := by
  refine ⟨fun i hi => ?_, fun h => stringsInPlace_of_reads h32 hmem h.reads, fun hplace => ⟨?_, ?_⟩⟩
  · rw [h64.count] at hi
    obtain ⟨s, hrun, hpos, -⟩ := sections64_seen h64 hmem i (Nat.le_of_lt hi)
    exact ⟨s, hrun, hpos hi⟩
  · intro i hi
    rw [h32.count] at hi
    obtain ⟨s, hrun, hpos, -⟩ := sections32_seen h32 hmem hplace i (Nat.le_of_lt hi)
    exact ⟨s, hrun, hpos hi⟩
  · obtain ⟨s32, hrun32, -, hseen32⟩ := sections32_seen h32 hmem hplace _ (Nat.le_refl _)
    obtain ⟨s64, hrun64, -, hseen64⟩ := sections64_seen h64 hmem _ (Nat.le_refl _)
    rw [h32.count, h64.count]
    exact ⟨s32, s64, hrun32, hrun64, hseen32.stabstr.trans hseen64.stabstr.symm, hseen32.stabstr,
      hseen32.esStab, hseen64.esStab⟩

/-! ## The listing -/

section Listing

variable {L : Shdr} {host : Host} {file : List UInt8} {eh : Ehdr} {S : List Section} {i k : Nat}
  {t : Section} {name : List UInt8}

def entriesOf (contents : List UInt8) : List (List UInt8) :=
  (List.range (contents.length / SIZEOF_STAB)).map fun i =>
    (contents.drop (SIZEOF_STAB * i)).take SIZEOF_STAB

theorem readEntries_eq {old : List UInt8} {n pos : Nat} (hold : old.length = SIZEOF_STAB)
    (h : pos + SIZEOF_STAB * n ≤ file.length) : readEntries file n pos old =
      (List.range n).map fun i => (file.drop (pos + SIZEOF_STAB * i)).take SIZEOF_STAB := by
  unfold SIZEOF_STAB at hold h ⊢
  induction n generalizing pos old with
  | zero => rfl
  | succ n ih =>
      have hread := @read_inside file _ _ _ hold (show pos + 12 ≤ file.length by omega)
      have hlen : ((file.drop pos).take 12).length = 12 := by
        rw [List.length_take, List.length_drop]
        omega
      unfold readEntries
      rw [hread]
      dsimp only
      rw [ih hlen (by omega), List.range_succ_eq_map, List.map_cons, List.map_map]
      refine congrArg _ (List.map_congr_left fun i _ => ?_)
      exact congrArg (fun a => (file.drop a).take 12) (by omega)

theorem Stored.listStabs (h : Stored L host file eh i t) (hsize : file.length < 9223372036854775808)
    (stabstr : List UInt8) : listStabs L host file (some stabstr) (some (header L file eh i)) =
      .ok (entriesOf t.contents, stabstr) := by
  have hinside := h.inside
  have hcontents := h.contents
  unfold Tools.listStabs
  dsimp only
  rw [lseek_ok (by omega), ok_bind, h.size]
  obtain ⟨off, hoff⟩ : ∃ off, host.field (header L file eh i) L.shOffset = off := ⟨_, rfl⟩
  rw [hoff] at hinside hcontents ⊢
  rw [readEntries_eq (host.fresh_length _) (by unfold SIZEOF_STAB; omega)]
  unfold entriesOf
  refine congrArg (fun l => Except.ok (l, stabstr)) (List.map_congr_left fun j hj => ?_)
  have hlt := List.mem_range.1 hj
  conv_rhs => rw [← hcontents]
  rw [List.drop_take, List.drop_drop, List.take_take]
  congr 1
  unfold SIZEOF_STAB at hlt ⊢
  omega

theorem lastNamed_name {n : Nat} (h : lastNamed S name n = some k) :
    ∃ t, S[k]? = some t ∧ t.name = name := by
  induction n with
  | zero => exact absurd h (by simp [lastNamed])
  | succ n ih =>
      unfold lastNamed at h
      split at h
      case isTrue hany =>
        obtain rfl := Option.some.inj h
        cases hs : S[n]? with
        | none =>
            rw [hs] at hany
            exact absurd hany Bool.false_ne_true
        | some t =>
            rw [hs] at hany
            exact ⟨t, rfl, eq_of_beq hany⟩
      case isFalse => exact ih h

/-- The bytes that identify the file, with the class `c`. -/
structure Identifies (host : Host) (file : List UInt8) (c : UInt8) : Prop where
  magic : (read file 0 (host.fresh 64)).1.take 4 = [0x7f, 0x45, 0x4c, 0x46]
  elfClass : (read file 0 (host.fresh 64)).1[4]? = some c
  encoding : (read file 0 (host.fresh 64)).1[5]? = some 1 ∨
    (read file 0 (host.fresh 64)).1[5]? = some 2

theorem Identifies.readstab {c : UInt8} (h : Identifies host file c) (hc : c = 1 ∨ c = 2) :
    readstab host file = if c = 1 then readstab32 host file (elf32Ehdr host (read file 0 (host.fresh 64)).1)
      else readstab64 host file (elf64Ehdr host (read file 0 (host.fresh 64)).1) := by
  unfold Tools.readstab
  dsimp only
  rw [if_neg (not_not.2 h.magic), h.elfClass, if_neg, if_neg]
  · simp
  · rcases h.encoding with henc | henc <;> simp [henc]
  · rcases hc with rfl | rfl <;> simp

/-- What is listed of a file whose last strings are `u`: in the 64-bit form the entries of its stabs,
in the 32-bit form those of whatever section has the last header. -/
theorem readstab_lists {file32 file64 : List UInt8} {u v : Section} {j : Nat}
    (hid32 : Identifies host file32 1) (hid64 : Identifies host file64 2)
    (h32 : Describes ELF32_SHDR host file32 (elf32Ehdr host (read file32 0 (host.fresh 64)).1) S)
    (h64 : Describes ELF64_SHDR host file64 (elf64Ehdr host (read file64 0 (host.fresh 64)).1) S)
    (hmem : Allocates host S)
    (hplace : StringsInPlace host file32 (elf32Ehdr host (read file32 0 (host.fresh 64)).1) S)
    (hstrings : lastNamed S STABSTR S.length = some j) (hu : S[j]? = some u)
    (hstabs : lastNamed S STABS S.length = some k) (ht : S[k]? = some t)
    (hv : S[S.length - 1]? = some v) (hlast : Stored ELF32_SHDR host file32
      (elf32Ehdr host (read file32 0 (host.fresh 64)).1) (S.length - 1) v) :
    Tools.readstab host file64 = .ok (entriesOf t.contents, u.contents) ∧
      Tools.readstab host file32 = .ok (entriesOf v.contents, u.contents) := by
  constructor
  · obtain ⟨s, hrun, -, hseen⟩ := sections64_seen h64 hmem _ (Nat.le_refl _)
    obtain ⟨t', ht', hname⟩ := lastNamed_name hstabs
    obtain rfl := Option.some.inj (ht'.symm.trans ht)
    rw [hid64.readstab (Or.inr rfl), if_neg (by decide)]
    unfold readstab64
    rw [h64.count, hrun, ok_bind, hseen.stabstr, hseen.esStab, hstrings, hstabs, Option.bind_some, hu]
    exact (h64.stored k t' ht (Or.inr hname)).listStabs h64.file_size u.contents
  · obtain ⟨s, hrun, -, hseen⟩ := sections32_seen h32 hmem hplace _ (Nat.le_refl _)
    have hpos : 0 < S.length := by
      have := (List.getElem?_eq_some_iff.1 hv).1
      omega
    rw [hid32.readstab (Or.inl rfl), if_pos rfl]
    unfold readstab32
    rw [h32.count, hrun, ok_bind, hseen.stabstr, hseen.last (S.length - 1) (by omega), hstrings,
      Option.bind_some, hu]
    exact hlast.listStabs h32.file_size u.contents

end Listing

/-! ## Two files -/

def littleHost : Host := ⟨false, fun _ => true, fun n => List.replicate n 0, by simp⟩

/-- A little-endian word of `width` bytes. -/
def leWord (width n : Nat) : List UInt8 :=
  (List.range width).map fun i => UInt8.ofNat (n / 256 ^ i)

def ident (elfClass : UInt8) : List UInt8 :=
  [0x7f, 0x45, 0x4c, 0x46, elfClass, 1, 1] ++ List.replicate 9 0

def nameTable : List UInt8 :=
  [0, 0x2e, 0x73, 0x68, 0x73, 0x74, 0x72, 0x74, 0x61, 0x62, 0] ++ STABSTR ++ [0] ++ STABS ++ [0]

def strings : Section := ⟨STABSTR, [0, 0x61, 0]⟩

def stabs : Section := ⟨STABS, List.replicate 12 0⟩

/-- The sections of a file, the strings in front of the stabs or behind them. -/
def fileSections (stringsFirst : Bool) : List Section :=
  [⟨[], []⟩, ⟨[0x2e, 0x73, 0x68, 0x73, 0x74, 0x72, 0x74, 0x61, 0x62], nameTable⟩] ++
    if stringsFirst then [strings, stabs] else [stabs, strings]

/-- The file with 32-bit headers: the contents from 52 on, the headers from 96 on. -/
def file32 (stringsFirst : Bool) : List UInt8 :=
  let shdr name offset size := leWord 4 name ++ List.replicate 12 0 ++ leWord 4 offset ++
    leWord 4 size ++ List.replicate 16 0
  ident 1 ++ List.replicate 16 0 ++ leWord 4 96 ++ List.replicate 10 0 ++ leWord 2 40 ++
    leWord 2 4 ++ leWord 2 1 ++ nameTable ++ strings.contents ++ stabs.contents ++ [0, 0] ++
    shdr 0 0 0 ++ shdr 1 52 27 ++
    if stringsFirst then shdr 11 79 3 ++ shdr 20 82 12 else shdr 20 82 12 ++ shdr 11 79 3

/-- The file with 64-bit headers: the contents from 64 on, the headers from 112 on. -/
def file64 (stringsFirst : Bool) : List UInt8 :=
  let shdr name offset size := leWord 4 name ++ List.replicate 20 0 ++ leWord 8 offset ++
    leWord 8 size ++ List.replicate 24 0
  ident 2 ++ List.replicate 24 0 ++ leWord 8 112 ++ List.replicate 10 0 ++ leWord 2 64 ++
    leWord 2 4 ++ leWord 2 1 ++ nameTable ++ strings.contents ++ stabs.contents ++
    List.replicate 6 0 ++ shdr 0 0 0 ++ shdr 1 64 27 ++
    if stringsFirst then shdr 11 91 3 ++ shdr 20 94 12 else shdr 20 94 12 ++ shdr 11 91 3

/-- What `Describes` asks of each section, as a test. -/
def describesEach (L : Shdr) (host : Host) (file : List UInt8) (eh : Ehdr) (S : List Section) : Bool :=
  (List.range S.length).all fun i => S[i]?.all fun t =>
    let h := header L file eh i
    (t.name ++ [0]).isPrefixOf (nameTable.drop (host.field h L.shName)) && !t.name.contains 0 &&
    (host.field h L.shSize == t.contents.length) &&
    decide (host.field h L.shOffset + t.contents.length ≤ file.length) &&
    ((file.drop (host.field h L.shOffset)).take t.contents.length == t.contents)

theorem describes_of_each {L : Shdr} {host : Host} {file : List UInt8} {eh : Ehdr} {S : List Section}
    {t : Section} (hsize : file.length < 9223372036854775808) (hentry : eh.eShentsize = L.sizeof)
    (hcount : eh.eShnum = S.length) (htable : eh.eShoff + S.length * L.sizeof ≤ file.length)
    (ht : S[eh.eShstrndx]? = some t) (hnames : t.contents = nameTable)
    (heach : describesEach L host file eh S = true) : Describes L host file eh S := by
  have hall : ∀ i u, S[i]? = some u → Stored L host file eh i u ∧ (0 : UInt8) ∉ u.name ∧
      u.name ++ [0] <+: nameTable.drop (host.field (header L file eh i) L.shName) := by
    intro i u hu
    have hi := List.all_eq_true.1 heach i (List.mem_range.2 (List.getElem?_eq_some_iff.1 hu).1)
    rw [hu] at hi
    simp only [Option.all_some, Bool.and_eq_true, List.isPrefixOf_iff_prefix, Bool.not_eq_true',
      List.contains_eq_mem, decide_eq_false_iff_not, beq_iff_eq, decide_eq_true_eq] at hi
    obtain ⟨⟨⟨⟨hname, hchars⟩, hlen⟩, hinside⟩, hcontents⟩ := hi
    exact ⟨⟨hlen, hinside, hcontents⟩, hchars, hname⟩
  refine ⟨hsize, hentry, hcount, htable, ⟨t, ht, (hall _ _ ht).1, fun i u hu => ?_⟩, fun u hu => ?_,
    fun i u hu _ => (hall i u hu).1⟩
  · rw [hnames]
    exact (hall i u hu).2.2
  · obtain ⟨i, hi, rfl⟩ := List.mem_iff_getElem.1 hu
    exact (hall i _ (List.getElem?_eq_getElem hi)).2.1

theorem file32_described (stringsFirst : Bool) : Describes ELF32_SHDR littleHost
    (file32 stringsFirst) (elf32Ehdr littleHost (file32 stringsFirst))
    (fileSections stringsFirst) := by
  cases stringsFirst
  · exact describes_of_each (by decide +kernel) (by decide +kernel) (by decide +kernel)
      (by decide +kernel) rfl rfl (by decide +kernel)
  · exact describes_of_each (by decide +kernel) (by decide +kernel) (by decide +kernel)
      (by decide +kernel) rfl rfl (by decide +kernel)

theorem file64_described (stringsFirst : Bool) : Describes ELF64_SHDR littleHost
    (file64 stringsFirst) (elf64Ehdr littleHost (file64 stringsFirst))
    (fileSections stringsFirst) := by
  cases stringsFirst
  · exact describes_of_each (by decide +kernel) (by decide +kernel) (by decide +kernel)
      (by decide +kernel) rfl rfl (by decide +kernel)
  · exact describes_of_each (by decide +kernel) (by decide +kernel) (by decide +kernel)
      (by decide +kernel) rfl rfl (by decide +kernel)

/-- With the strings at the end of the table both readers agree. -/
theorem readstab_agrees_iff_sample :
    Agrees littleHost (fileSections false) (file32 false) (elf32Ehdr littleHost (file32 false))
      (file64 false) (elf64Ehdr littleHost (file64 false)) := by
  refine (readstab_agrees_iff (file32_described false) (file64_described false) fun _ _ => rfl).2.2 ?_
  intro i t hget hname hlt
  have hi : i < 3 := by
    have hlen : (fileSections false).length = 4 := rfl
    omega
  interval_cases i
  all_goals
    obtain rfl := Option.some.inj hget
    exact absurd hname (by decide)

/-- With the strings in front of the stabs the next header is read behind the strings. -/
theorem readstab_disagrees :
    (sections32 littleHost (file32 true) (elf32Ehdr littleHost (file32 true)) 3).toOption.map
        Scan.pos = some 82 ∧
      (elf32Ehdr littleHost (file32 true)).eShoff + 3 * ELF32_SHDR.sizeof = 216 ∧
      ¬ Agrees littleHost (fileSections true) (file32 true) (elf32Ehdr littleHost (file32 true))
        (file64 true) (elf64Ehdr littleHost (file64 true)) := by
  refine ⟨by decide +kernel, by decide +kernel, fun h => ?_⟩
  have hplace := stringsInPlace_of_reads (file32_described true) (fun _ _ => rfl) h.reads
  exact absurd (hplace 2 strings rfl rfl (by decide)) (by decide +kernel)

end Aimv6.Tools
