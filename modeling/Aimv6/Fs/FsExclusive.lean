import Aimv6.Fs.FsRun

/-! # Exclusive access

From the call of `open_file` that let a process into a file until that process
closes it, the `occupied` field of the entry is the process, and everybody else is
refused.
-/

namespace Aimv6.Fs

open Support

theorem Owned.appendFile_refused {w : World} {files free : List Nat} {chain : Nat → List Nat}
    (h : Owned w.fs files free chain) {x pid index addr : Nat} {size : Int} {io : Nat → Int}
    (hfind : w.fs.findIndex index = .ok (some x)) (hheld : w.fs.heldByOther x pid) :
    ∃ c w', appendFile w pid index addr size io = .ok (c, w') ∧ c < 0 := by
  unfold appendFile
  rcases h.dataAlloc_spec size with hok | hno
  · obtain ⟨pre, post, p, fs₁, -, -, halloc, -, -, hentry, hhead⟩ := hok
    have hfind₁ : fs₁.findIndex index = .ok (some x) :=
      (congrFun (find_congr hentry hhead) _).trans hfind
    have hheld₁ : fs₁.heldByOther x pid := by
      unfold FsState.heldByOther FsState.occupied at hheld ⊢
      rw [hentry]
      exact hheld
    rw [halloc]
    dsimp only
    rw [hfind₁, Res.ok_bind]
    dsimp only
    rw [if_pos hheld₁]
    exact ⟨-3, _, rfl, by decide⟩
  · rw [hno.2]
    exact ⟨-1, _, rfl, by decide⟩

namespace FsSystem

variable {S S' : FsSystem} {files free : List Nat} {chain : Nat → List Nat} {p f x : Nat}

/-- The entry `x` has descriptor `f` and is occupied by `p`. -/
structure Held (S : FsSystem) (files : List Nat) (p f x : Nat) : Prop where
  listed : x ∈ files
  index : S.w.fs.indexNumber x = f
  occupied : S.w.fs.occupied x = p

/-- Along the run `es` the process `p` was let into the file `f` and has not closed it since. -/
def OpenedBy (w₀ : World) (es : List FsEvent) (p f : Nat) : Prop :=
  ∃ pre post S₀ S₁, es = pre ++ .openFile p f :: post ∧ run step (init w₀) pre = some S₀ ∧
    S₀.call (.openFile p f) = some (0, S₁) ∧ .closeFile p f ∉ post

/-- The calls that ask for the file `f` in the name of `q`. -/
inductive Asks (q f : Nat) : FsEvent → Prop where
  | openFile : Asks q f (.openFile q f)
  | closeFile : Asks q f (.closeFile q f)
  | append (addr : Nat) (size : Int) (io : Nat → Int) : Asks q f (.append q f addr size io)

theorem Held.heldByOther (h : S.Held files p f x) (hp : p ≠ MINUS_ONE) {q : Nat} (hq : q ≠ p) :
    S.w.fs.heldByOther x q := by
  unfold FsState.heldByOther
  rw [h.occupied]
  exact ⟨hp, hq.symm⟩

theorem Held.findIndex (h : S.Held files p f x) (hI : S.Inv files free chain) :
    S.w.fs.findIndex f = .ok (some x) := by
  rcases hI.owned.findIndex_spec f with hfound | hnone
  · obtain ⟨y, hy, hidx, hfind⟩ := hfound
    obtain rfl := hI.numbered.inj h.listed hy (h.index.trans hidx.symm)
    exact hfind
  · exact absurd h.index (hnone.1 x h.listed)

theorem Inv.held_of_open (hI : S.Inv files free chain)
    (hcall : S.call (.openFile p f) = some (0, S')) :
    ∃ x, S'.Inv files free chain ∧ S'.Held files p f x := by
  obtain ⟨⟨c, fs'⟩, hres, hpair⟩ := Option.map_eq_some_iff.1 hcall
  obtain ⟨rfl, rfl⟩ := Prod.mk.inj hpair
  have hres := Res.toOption_eq_some.1 hres
  rcases hI.owned.openFile_spec p f with hfound | hnone
  · obtain ⟨x, hx, hidx, hrun⟩ := hfound
    rw [hrun] at hres
    split at hres
    case isTrue => exact absurd (Prod.mk.inj (Except.ok.inj hres)).1 (by decide)
    case isFalse hheld =>
      obtain ⟨-, rfl⟩ := Prod.mk.inj (Except.ok.inj hres)
      refine ⟨x, hI.setOccupied x p, hx, ?_, setOccupied_same S.w.fs x p⟩
      rw [← hidx]
      exact congrFun (setOccupied_index S.w.fs x p) x
  · rw [hnone.2] at hres
    exact absurd (Prod.mk.inj (Except.ok.inj hres)).1 (by decide)

theorem Held.call (h : S.Held files p f x) (hI : S.Inv files free chain) (hp : p ≠ MINUS_ONE)
    {e : FsEvent} {c : Int} (he : e ≠ .closeFile p f) (hcall : S.call e = some (c, S')) :
    ∃ files' free' chain', S'.Inv files' free' chain' ∧ S'.Held files' p f x := by
  obtain ⟨files', free', chain', hI', heff⟩ := hI.call hcall
  refine ⟨files', free', chain', hI', heff.listed x h.listed, ?_, ?_⟩
  · rw [heff.index x h.listed]
    exact h.index
  · rcases heff.occupied x h.listed with hsame | hchange
    · rw [hsame]
      exact h.occupied
    · obtain ⟨q, hfree, hq⟩ := hchange
      have hqp : q = p := by
        by_contra hne
        exact hfree (h.heldByOther hp hne)
      rw [h.index, hqp] at hq
      rcases hq with hopen | hclose
      · exact hopen.2
      · exact absurd hclose.1 he

theorem Held.run (hp : p ≠ MINUS_ONE) {es : List FsEvent} (hes : .closeFile p f ∉ es)
    (hI : S.Inv files free chain) (h : S.Held files p f x) (hrun : run step S es = some S') :
    ∃ files' free' chain', S'.Inv files' free' chain' ∧ S'.Held files' p f x := by
  induction es generalizing S files free chain with
  | nil =>
      obtain rfl := Option.some.inj hrun
      exact ⟨files, free, chain, hI, h⟩
  | cons e es ih =>
      obtain ⟨S₁, hstep, hrest⟩ := run_cons.1 hrun
      obtain ⟨⟨c, S₂⟩, hcall, rfl⟩ := Option.map_eq_some_iff.1 hstep
      have he : e ≠ .closeFile p f := fun hc => hes (by simp [hc])
      obtain ⟨files₁, free₁, chain₁, hI₁, h₁⟩ := h.call hI hp he hcall
      exact ih (fun hc => hes (by simp [hc])) hI₁ h₁ hrest

/-- A file that a process was let into and has not closed is occupied by it. -/
theorem OpenedBy.held {w₀ : World} {es : List FsEvent} (h : OpenedBy w₀ es p f)
    (hp : p ≠ MINUS_ONE) (hrun : run step (init w₀) es = some S) :
    ∃ files free chain x, S.Inv files free chain ∧ S.Held files p f x := by
  obtain ⟨pre, post, S₀, S₁, rfl, hpre, hcall, hpost⟩ := h
  obtain ⟨S₀', hpre', hrest⟩ := run_append.1 hrun
  obtain rfl := Option.some.inj (hpre.symm.trans hpre')
  obtain ⟨S₁', hstep, hrest⟩ := run_cons.1 hrest
  obtain ⟨files, free, chain, hI⟩ := run_inv hpre
  obtain ⟨x, hI₁, h₁⟩ := hI.held_of_open hcall
  have hS₁ : S₁ = S₁' := by
    unfold step at hstep
    rw [hcall] at hstep
    exact Option.some.inj hstep
  subst hS₁
  obtain ⟨files', free', chain', hI', h'⟩ := h₁.run hp hpost hI₁ hrest
  exact ⟨files', free', chain', x, hI', h'⟩

theorem Held.refused (h : S.Held files p f x) (hI : S.Inv files free chain) (hp : p ≠ MINUS_ONE)
    {q : Nat} (hq : q ≠ p) {e : FsEvent} (he : Asks q f e) :
    ∃ c S', S.call e = some (c, S') ∧ c < 0 := by
  have hheld := h.heldByOther hp hq
  have hfind := h.findIndex hI
  cases he with
  | openFile =>
      have hrun : openFile S.w.fs q f = .ok (-2, S.w.fs) := by
        unfold Fs.openFile
        rw [hfind, Res.ok_bind]
        exact if_pos hheld
      refine ⟨-2, S, ?_, by decide⟩
      unfold FsSystem.call
      dsimp only
      rw [hrun]
      rfl
  | closeFile =>
      have hrun : closeFile S.w.fs q f = .ok (-2, S.w.fs) := by
        unfold Fs.closeFile
        rw [hfind, Res.ok_bind]
        exact if_pos hheld
      refine ⟨-2, S, ?_, by decide⟩
      unfold FsSystem.call
      dsimp only
      rw [hrun]
      rfl
  | append addr size io =>
      obtain ⟨c, w', hrun, hc⟩ := @Owned.appendFile_refused S.w files free chain hI.owned x q f addr
        size io hfind hheld
      refine ⟨c, ⟨w', if c = 0 then Function.update S.appended f
        (S.appended f ++ bufferBlocks S.w.mem addr size.toNat) else S.appended⟩, ?_, hc⟩
      unfold FsSystem.call
      dsimp only
      rw [hrun]
      rfl

/-- From a successful `open_file(p, f)` until `close_file(p, f)` the file is occupied by `p` and by
nobody else, who asks for it in another name is refused, and its chain changes in calls of
`append_file` by `p` only. -/
theorem exclusive_access {w₀ : World} {es : List FsEvent}
    (hrun : Support.run step (init w₀) es = some S) (hp : p ≠ MINUS_ONE)
    (hopened : OpenedBy w₀ es p f) :
    ∃ x, S.w.fs.findIndex f = .ok (some x) ∧ S.w.fs.occupied x = p ∧
      (∀ q ≠ p, ∀ e, Asks q f e → ∃ c S', S.call e = some (c, S') ∧ c < 0) ∧
      (∀ e c S', S.call e = some (c, S') → (∀ addr size io, e ≠ .append p f addr size io) →
        ∃ bs, Chain S.w.fs.nextBlock (S.w.fs.firstBlock x) bs ∧
          Chain S'.w.fs.nextBlock (S'.w.fs.firstBlock x) bs) ∧
      ∀ q ≠ MINUS_ONE, OpenedBy w₀ es q f → q = p := by
  obtain ⟨files, free, chain, x, hI, h⟩ := hopened.held hp hrun
  refine ⟨x, h.findIndex hI, h.occupied, fun q hq e he => h.refused hI hp hq he,
    fun e c S' hcall he => ?_, fun q hqm hq => ?_⟩
  · obtain ⟨files', free', chain', hI', heff⟩ := hI.call hcall
    refine ⟨chain x, hI.owned.chains x h.listed, ?_⟩
    rcases heff.blocks x h.listed with hsame | happend
    · rw [← hsame]
      exact hI'.owned.chains x (heff.listed x h.listed)
    · obtain ⟨q, addr, size, io, rfl, hfree⟩ := happend
      have hqp : q = p := by
        by_contra hne
        exact hfree (h.heldByOther hp hne)
      rw [h.index, hqp] at he
      exact absurd rfl (he addr size io)
  · obtain ⟨files', free', chain', y, hI', hy⟩ := hq.held hqm hrun
    have hfind := (h.findIndex hI).symm.trans (hy.findIndex hI')
    obtain rfl : x = y := by simpa using hfind
    exact hy.occupied.symm.trans h.occupied

theorem sampleRun_opens :
    ((Support.run step (init blank) (sampleRun.take 1)).bind fun S =>
      (S.call (.openFile 7 1)).map Prod.fst) = some 0 := by
  decide +kernel

theorem exclusive_access_sample : ∃ S : FsSystem, ∃ x, S.w.fs.findIndex 1 = .ok (some x) ∧
    S.w.fs.occupied x = 7 ∧ ∃ c S', S.call (.openFile 8 1) = some (c, S') ∧ c < 0 := by
  obtain ⟨S, hS, -⟩ := Option.map_eq_some_iff.1 sampleRun_state
  obtain ⟨S₀, hpre, hopen⟩ := Option.bind_eq_some_iff.1 sampleRun_opens
  obtain ⟨⟨c, S₁⟩, hcall, rfl⟩ := Option.map_eq_some_iff.1 hopen
  have hopened : OpenedBy blank sampleRun 7 1 :=
    ⟨_, sampleRun.drop 2, S₀, S₁, rfl, hpre, hcall, by simp [sampleRun]⟩
  obtain ⟨x, hfind, hocc, hrefused, -⟩ := exclusive_access hS (by decide) hopened
  exact ⟨S, x, hfind, hocc, hrefused 8 (by decide) _ Asks.openFile⟩

end FsSystem

end Aimv6.Fs
