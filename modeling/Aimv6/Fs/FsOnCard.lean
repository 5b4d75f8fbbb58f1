import Aimv6.Fs.FsTransfers

/-! # The file system on its card

Calls of the file system with the SD controller below them, in any order, while
the kernel's memory changes between them. A call takes the turns in which it
runs against the controller and has to come back in them. Every run does what a
run over a disk does that is read and written at a stroke, and a call that is
cut off leaves the files on the card as they are.
-/

namespace Aimv6.Fs

open Support Drivers

inductive CardEvent where
  /-- `create_file_from_name(name, n)`; `answer` is the address that the slab allocator returns -/
  | create (name : Nat → UInt8) (n : Int) (answer : Option Nat)
  /-- `open_file(pid, index_number)` -/
  | openFile (pid index : Nat)
  /-- `close_file(pid, index_number)` -/
  | closeFile (pid index : Nat)
  /-- `append_file(pid, index_number, addr, size)` -/
  | append (pid index addr : Nat) (size : Int) (turns : List (Turn SdMove))
  /-- `read_datablock(pid, index_number, pos, size)`; `buf` is what `kmalloc` returns -/
  | read (pid index pos size buf : Nat) (turns : List (Turn SdMove))
  /-- anything else that is stored in memory -/
  | memory (m : Memory)

def CardEvent.InKernel : CardEvent → Prop
  | append _ _ addr size _ => KERNEL_BASE ≤ addr ∧ addr + 512 * size.toNat ≤ 4294967296
  | read _ _ _ size buf _ => KERNEL_BASE ≤ buf ∧ buf + 512 * size ≤ 4294967296
  | _ => True

def kernelView (m : Memory) : Memory := fun a => m (V2P a)

/-- The same call over a disk, and what memory is behind it. -/
inductive CardEvent.Matches : CardEvent → FsEvent × Memory → Prop where
  | create (name : Nat → UInt8) (n : Int) (answer : Option Nat) (m : Memory) :
      Matches (.create name n answer) (.create name n answer, m)
  | openFile (pid index : Nat) (m : Memory) : Matches (.openFile pid index) (.openFile pid index, m)
  | closeFile (pid index : Nat) (m : Memory) :
      Matches (.closeFile pid index) (.closeFile pid index, m)
  | append (pid index addr : Nat) (size : Int) (turns : List (Turn SdMove)) (io : Nat → Int)
      (m : Memory) :
      Matches (.append pid index addr size turns) (.append pid index addr size io, m)
  | read (pid index pos size buf : Nat) (turns : List (Turn SdMove)) (io : Nat → Int) (m : Memory) :
      Matches (.read pid index pos size buf turns) (.read pid index pos size buf io, m)
  | memory (m : Memory) : Matches (.memory m) (.memory (kernelView m), kernelView m)

/-- A call over the disk, and some memory behind it. -/
def FsSystem.callThen (S : FsSystem) (e : FsEvent × Memory) : Option (Int × FsSystem) :=
  (S.call e.1).map fun r => (r.1, { r.2 with w := { r.2.w with mem := e.2 } })

def cardBlock (q : SdController) (sec : Nat) : Block := fun k => q.card (512 * sec + k)

/-- The call comes back at the end of the turns. -/
def finish {α : Type} (d : Driver SdReg α) (q : SdController) (turns : List (Turn SdMove)) :
    Option (α × SdController) :=
  (run sdController.step (d, q) turns).bind fun p => p.1.result.map fun a => (a, p.2)

theorem run_of_finish {α : Type} {d : Driver SdReg α} {q q' : SdController}
    {turns : List (Turn SdMove)} {a : α} (h : finish d q turns = some (a, q')) :
    run sdController.step (d, q) turns = some (.done a, q') := by
  obtain ⟨p, hrun, hp⟩ := Option.bind_eq_some_iff.1 h
  obtain ⟨b, hb, heq⟩ := Option.map_eq_some_iff.1 hp
  obtain ⟨rfl, rfl⟩ := Prod.mk.inj heq
  rw [hrun, ← Driver.result_eq_some hb]

/-- The file system, the controller with memory and the card, and what the successful appends to
each descriptor were given. -/
structure CardSystem where
  fs : FsState
  q : SdController
  appended : Nat → List Block

namespace CardSystem

def call (polls : Nat) (C : CardSystem) : CardEvent → Option (Int × CardSystem)
  | .create name n answer =>
      if 0 ≤ n ∧ n ≤ 9 ∧ C.fs.freshAnswer answer = true then
        (createFileFromName C.fs name n answer).toOption.map fun r => (r.1, { C with fs := r.2 })
      else none
  | .openFile pid index =>
      (openFile C.fs pid index).toOption.map fun r => (r.1, { C with fs := r.2 })
  | .closeFile pid index =>
      (closeFile C.fs pid index).toOption.map fun r => (r.1, { C with fs := r.2 })
  | .append pid index addr size turns =>
      (finish (runAppendFile polls C.fs pid index addr size) C.q turns).map fun r =>
        (r.1.1, ⟨r.1.2, r.2, if r.1.1 = 0 then
          Function.update C.appended index
            (C.appended index ++ bufferBlocks (kernelView C.q.mem) addr size.toNat)
          else C.appended⟩)
  | .read pid index pos size buf turns =>
      (finish (runReadDatablock polls C.fs pid index pos size buf) C.q turns).map fun r =>
        (ptrVal r.1, { C with q := r.2 })
  | .memory m => some (0, { C with q := { C.q with mem := m } })

/-- The controller at some moment of a call, which need not come back. -/
def During (polls : Nat) (C : CardSystem) : CardEvent → SdController → Prop
  | .append pid index addr size turns, q => ∃ d,
      run sdController.step (runAppendFile polls C.fs pid index addr size, C.q) turns = some (d, q)
  | .read pid index pos size buf turns, q => ∃ d,
      run sdController.step (runReadDatablock polls C.fs pid index pos size buf, C.q) turns =
        some (d, q)
  | .memory m, q => q = { C.q with mem := m }
  | _, q => q = C.q

/-- The state behind `build_fs()`. -/
def init (fs : FsState) (q : SdController) : CardSystem := ⟨buildFs fs, q, fun _ => []⟩

/-- The run over the disk has come as far. -/
structure Related (C : CardSystem) (S : FsSystem) : Prop where
  fs : S.w.fs = C.fs
  seen : Seen S.w.mem S.w.disk C.q.image
  ready : C.q.Ready 512
  appended : S.appended = C.appended

variable {C C' : CardSystem} {S : FsSystem} {polls : Nat} {c : Int}

theorem seen_kernelView (q : SdController) :
    Seen (kernelView q.mem) (cardBlock q) q.image := by
  refine ⟨fun p hp => ?_, fun t k => rfl⟩
  unfold kernelView
  rw [V2P_P2V (by omega)]
  rfl

/-- A block in the kernel's memory is the same in both views of memory. -/
theorem blockAt_seen {m : Memory} {disk : Nat → Block} {q : SdController} {addr : Nat}
    (h : Seen m disk q.image) (haddr : KERNEL_BASE ≤ addr) (hroom : addr + 512 ≤ 4294967296) :
    blockAt m addr = blockAt (kernelView q.mem) addr := by
  funext j
  have hj := j.isLt
  unfold blockAt
  generalize haj : addr + j = a
  have hphys : V2P a < 2147483648 ∧ a < 4294967296 := by
    unfold V2P sub32 KERNEL_BASE at *
    omega
  have hmem := h.mem (V2P a) hphys.1
  rw [P2V_V2P hphys.2] at hmem
  exact hmem

theorem bufferBlocks_seen {m : Memory} {disk : Nat → Block} {q : SdController}
    (h : Seen m disk q.image) {addr n : Nat} (haddr : KERNEL_BASE ≤ addr)
    (hroom : addr + 512 * n ≤ 4294967296) :
    bufferBlocks m addr n = bufferBlocks (kernelView q.mem) addr n := by
  unfold bufferBlocks
  refine List.map_congr_left fun k hk => ?_
  have hk := List.mem_range.1 hk
  have hlt : addr + 512 * k + 512 ≤ addr + 512 * n := by omega
  have hend := hlt.trans hroom
  have hadd : add32 addr (512 * k) = addr + 512 * k := add32_of_lt (by omega)
  rw [hadd]
  exact blockAt_seen h (haddr.trans (Nat.le_add_right ..)) hend

variable {files free : List Nat} {chain : Nat → List Nat}

theorem Related.owned (h : Related C S) (hI : S.Inv files free chain) :
    Owned C.fs files free chain := by
  rw [← h.fs]
  exact hI.owned

/-- A call over the controller is a call over the disk, and some change of memory. -/
theorem Related.call_disk (h : Related C S) (hI : S.Inv files free chain) {e : CardEvent}
    (hk : e.InKernel) (hcall : C.call polls e = some (c, C')) :
    ∃ e' S₁ m, e.Matches (e', m) ∧ S.call e' = some (c, S₁) ∧
      Related C' { S₁ with w := { S₁.w with mem := m } } := by
  have hown := h.owned hI
  cases e with
  | create name n answer =>
      refine ⟨.create name n answer, ?_⟩
      unfold CardSystem.call at hcall
      unfold FsSystem.call
      dsimp only at hcall ⊢
      rw [h.fs]
      by_cases hguard : 0 ≤ n ∧ n ≤ 9 ∧ C.fs.freshAnswer answer = true
      · rw [if_pos hguard] at hcall ⊢
        obtain ⟨r, hres, hpair⟩ := Option.map_eq_some_iff.1 hcall
        obtain ⟨rfl, rfl⟩ := Prod.mk.inj hpair
        rw [hres]
        exact ⟨_, S.w.mem, .create name n answer _, rfl, rfl, h.seen, h.ready, h.appended⟩
      · rw [if_neg hguard] at hcall
        exact absurd hcall (by simp)
  | openFile pid index =>
      refine ⟨.openFile pid index, ?_⟩
      obtain ⟨r, hres, hpair⟩ := Option.map_eq_some_iff.1 hcall
      obtain ⟨rfl, rfl⟩ := Prod.mk.inj hpair
      unfold FsSystem.call
      dsimp only
      rw [h.fs, hres]
      exact ⟨_, S.w.mem, .openFile pid index _, rfl, rfl, h.seen, h.ready, h.appended⟩
  | closeFile pid index =>
      refine ⟨.closeFile pid index, ?_⟩
      obtain ⟨r, hres, hpair⟩ := Option.map_eq_some_iff.1 hcall
      obtain ⟨rfl, rfl⟩ := Prod.mk.inj hpair
      unfold FsSystem.call
      dsimp only
      rw [h.fs, hres]
      exact ⟨_, S.w.mem, .closeFile pid index _, rfl, rfl, h.seen, h.ready, h.appended⟩
  | append pid index addr size turns =>
      refine ⟨.append pid index addr size fun _ => 0, ?_⟩
      obtain ⟨⟨r, q'⟩, hres, hpair⟩ := Option.map_eq_some_iff.1 hcall
      obtain ⟨rfl, rfl⟩ := Prod.mk.inj hpair
      obtain ⟨-, hready, disk', happend, hseen⟩ := ((runAppendFile_holds hown h.ready h.seen hk.1
        hk.2).run (run_of_finish hres)).2 r rfl
      have hsame : S.w = ⟨C.fs, S.w.mem, S.w.disk⟩ := by rw [← h.fs]
      unfold FsSystem.call
      dsimp only
      rw [hsame, happend]
      refine ⟨_, S.w.mem, .append pid index addr size turns _ _, rfl, rfl, hseen, hready, ?_⟩
      dsimp only
      rw [h.appended, bufferBlocks_seen h.seen hk.1 hk.2]
  | read pid index pos size buf turns =>
      obtain ⟨⟨r, q'⟩, hres, hpair⟩ := Option.map_eq_some_iff.1 hcall
      obtain ⟨rfl, rfl⟩ := Prod.mk.inj hpair
      obtain ⟨hcard, hready, io, m', hread, -⟩ := ((runReadDatablock_holds h.ready h.seen hk.1
        hk.2).run (run_of_finish hres)).2 r rfl
      refine ⟨.read pid index pos size buf io, ?_⟩
      have hsame : S.w = ⟨C.fs, S.w.mem, S.w.disk⟩ := by rw [← h.fs]
      unfold FsSystem.call
      dsimp only
      rw [hsame, hread]
      refine ⟨_, kernelView q'.mem, .read pid index pos size buf turns io _, rfl, rfl,
        ⟨(seen_kernelView q').mem, fun t k => ?_⟩, hready, h.appended⟩
      exact (h.seen.disk t k).trans (congrFun hcard.symm _)
  | memory m =>
      obtain ⟨rfl, rfl⟩ := Prod.mk.inj (Option.some.inj hcall)
      refine ⟨.memory (kernelView m), _, kernelView m, .memory m, rfl, h.fs,
        ⟨fun p hp => ?_, h.seen.disk⟩, ⟨h.ready.idle, h.ready.blkSize, h.ready.unit⟩, h.appended⟩
      show m (V2P (P2V p)) = m p
      rw [V2P_P2V (by omega)]

theorem Related.call (h : Related C S) (hI : ∃ files free chain, S.Inv files free chain)
    {e : CardEvent} (hk : e.InKernel) (hcall : C.call polls e = some (c, C')) :
    ∃ e' S', e.Matches e' ∧ S.callThen e' = some (c, S') ∧ Related C' S' ∧
      ∃ files free chain, S'.Inv files free chain := by
  obtain ⟨files, free, chain, hI⟩ := hI
  obtain ⟨e', S₁, m, hmatch, hdisk, hrel⟩ := h.call_disk hI hk hcall
  obtain ⟨files', free', chain', hI', -⟩ := hI.call hdisk
  refine ⟨(e', m), _, hmatch, ?_, hrel, files', free', chain', hI'.congr rfl rfl⟩
  unfold FsSystem.callThen
  rw [hdisk]
  rfl

theorem found_file {fs : FsState} (h : Owned fs files free chain) {index x : Nat}
    (hfound : fs.findIndex index = .ok (some x)) : x ∈ files ∧ fs.indexNumber x = index := by
  rcases h.findIndex_spec index with hsome | hnone
  · obtain ⟨y, hy, hidx, hfind⟩ := hsome
    obtain rfl : y = x := by simpa using hfind.symm.trans hfound
    exact ⟨hy, hidx⟩
  · simpa using hnone.2.symm.trans hfound

/-- At every moment of a call the card is as before outside the free blocks. -/
theorem Related.during (h : Related C S) (hI : S.Inv files free chain) {e : CardEvent}
    (hk : e.InKernel) {q : SdController} (hduring : C.During polls e q) :
    Spares C.q.card (free.map sector) q := by
  have hown := h.owned hI
  cases e with
  | append pid index addr size turns =>
      obtain ⟨d, hrun⟩ := hduring
      exact ((runAppendFile_holds hown h.ready h.seen hk.1 hk.2).run hrun).1
  | read pid index pos size buf turns =>
      obtain ⟨d, hrun⟩ := hduring
      have hcard := ((runReadDatablock_holds h.ready h.seen hk.1 hk.2).run hrun).1
      exact fun b _ => congrFun hcard b
  | create | openFile | closeFile | memory =>
      obtain rfl := hduring
      exact fun _ _ => rfl

/-- The blocks of a file are those appended to it, on any card that is as before outside the free
blocks. -/
theorem Related.contents (h : Related C S) (hI : S.Inv files free chain) {q : SdController}
    (hq : Spares C.q.card (free.map sector) q) {x : Nat} (hx : x ∈ files) :
    (chain x).map (fun b => cardBlock q (sector b)) = C.appended (C.fs.indexNumber x) := by
  rw [← h.appended, ← h.fs, ← hI.contents x hx]
  refine List.map_congr_left fun b hb => funext fun k => ?_
  have hnot : (512 * sector b + k) / 512 ∉ free.map sector := by
    intro hmem
    obtain ⟨b', hb', heq⟩ := List.mem_map.1 hmem
    have hk := k.isLt
    rw [sector_eq, sector_eq] at heq
    obtain rfl : b' = b := by omega
    exact (hI.owned.chain_block hx hb).1 hb'
  exact (hq _ hnot).trans (h.seen.disk _ k).symm

/-- A permitted read within a file fails, or leaves the blocks of the card in the buffer. -/
theorem Related.read (h : Related C S) (hI : S.Inv files free chain)
    {pid index pos size buf x : Nat} {turns : List (Turn SdMove)}
    (hfound : C.fs.findIndex index = .ok (some x)) (hpermitted : ¬ C.fs.heldByOther x pid)
    (hpos : pos ≤ (chain x).length) (hbuf : KERNEL_BASE ≤ buf)
    (hroom : buf + 512 * size ≤ 4294967296)
    (hcall : C.call polls (.read pid index pos size buf turns) = some (c, C')) :
    c = 0 ∨ c = buf ∧ ∀ k b, k < size → (chain x)[pos + k]? = some b →
      blockAt (kernelView C'.q.mem) (buf + 512 * k) = cardBlock C.q (sector b) := by
  have hown := h.owned hI
  obtain ⟨hx, -⟩ := found_file hown hfound
  obtain ⟨⟨r, q'⟩, hres, hpair⟩ := Option.map_eq_some_iff.1 hcall
  obtain ⟨rfl, rfl⟩ := Prod.mk.inj hpair
  obtain ⟨-, -, io, m', hread, hgood⟩ := ((runReadDatablock_holds h.ready h.seen hbuf
    hroom).run (run_of_finish hres)).2 r rfl
  cases r with
  | none => exact Or.inl rfl
  | some a =>
      obtain ⟨hio, hseen⟩ := hgood (Option.some_ne_none a)
      have hmin : min size ((chain x).length - pos) ≤ size := Nat.min_le_left _ _
      obtain ⟨mem', hread', -, hin⟩ := @readDatablock_spec ⟨C.fs, S.w.mem, S.w.disk⟩ x pid index pos
        size buf (chain x) io hfound (hown.chains x hx) hpermitted hpos
        (Nat.lt_of_lt_of_le (by decide) hbuf)
        ((Nat.add_le_add_left (Nat.mul_le_mul_left 512 hmin) buf).trans hroom) hio
      obtain ⟨hr, hw⟩ := Prod.mk.inj (Except.ok.inj (hread'.symm.trans hread))
      obtain rfl := Option.some.inj hr
      obtain rfl : mem' = m' := congrArg World.mem hw
      refine Or.inr ⟨rfl, fun k b hk hb => ?_⟩
      have hfits : buf + 512 * k + 512 ≤ buf + 512 * size := by omega
      have hview := blockAt_seen hseen (hbuf.trans (Nat.le_add_right ..)) (hfits.trans hroom)
      have hsector := hown.sector_addr (hown.chain_lt hx (List.mem_of_getElem? hb))
      rw [← hview, hin k b hk hb, hsector]
      exact funext fun j => h.seen.disk _ j

theorem init_related {fs : FsState} {q : SdController} (hq : q.Ready 512) :
    Related (init fs q) (FsSystem.init ⟨fs, kernelView q.mem, cardBlock q⟩) :=
  ⟨rfl, seen_kernelView q, hq, rfl⟩

variable {fs : FsState} {q : SdController} {es : List CardEvent} {rets : List Int}

theorem run_simulates (hq : q.Ready 512) (hk : ∀ e ∈ es, e.InKernel)
    (hrun : replies (CardSystem.call polls) (init fs q) es = some (rets, C)) :
    ∃ es' S, List.Forall₂ CardEvent.Matches es es' ∧
      replies FsSystem.callThen (FsSystem.init ⟨fs, kernelView q.mem, cardBlock q⟩) es' =
        some (rets, S) ∧ Related C S ∧ ∃ files free chain, S.Inv files free chain :=
  replies_simulate (R := fun C S => Related C S ∧ ∃ files free chain, S.Inv files free chain)
    (M := CardEvent.Matches) (P := CardEvent.InKernel)
    (fun _ _ _ _ _ he hR hcall => hR.1.call hR.2 he hcall)
    ⟨init_related hq, FsSystem.init_inv _⟩ hk hrun

/-! ## A run -/

def blockTurns : List (Turn SdMove) := SdController.turns 512 ++ SdController.ended

theorem turns_moves (n : Nat) :
    SdController.turns n = SdController.turns 0 ++ List.replicate n (.own .move) := by
  simp [SdController.turns]

def finishBlock {α : Type} (d : Driver SdReg α) (q : SdController) : Option (α × SdController) :=
  (runAtOnce (d, q) [(SdController.turns 0, 512)]).bind fun p => finish p.1 p.2 SdController.ended

theorem finish_block {α : Type} {d : Driver SdReg α} {r : α × SdController}
    (h : finishBlock d q = some r) : finish d q blockTurns = some r := by
  obtain ⟨p, hmoved, hfinish⟩ := Option.bind_eq_some_iff.1 h
  obtain ⟨p', hrun, hresult⟩ := Option.bind_eq_some_iff.1 hfinish
  have hturns : blockTurns = turnsOf [(SdController.turns 0, 512)] ++ SdController.ended := by
    rw [blockTurns, turns_moves, turnsOf, List.flatMap_cons, List.flatMap_nil, List.append_nil]
  refine Option.bind_eq_some_iff.2 ⟨p', ?_, hresult⟩
  rw [hturns]
  exact run_append.2 ⟨p, run_of_runAtOnce hmoved, hrun⟩

def blankCard : SdController := SdController.fresh (fun a => UInt8.ofNat a) fun _ => 0

def sampleCalls : List CardEvent :=
  [.create (fun _ => 97) 1 (some 2155880440), .openFile 7 1,
    .append 7 1 2147483648 1 blockTurns]

theorem sampleCalls_inKernel : ∀ e ∈ sampleCalls, e.InKernel := by
  simp [sampleCalls, CardEvent.InKernel, KERNEL_BASE]

theorem blankCard_ready : blankCard.Ready 512 := ⟨rfl, rfl, rfl⟩

theorem sampleCalls_run : ∃ C : CardSystem,
    replies (CardSystem.call 2) (init FsSystem.blank.fs blankCard) sampleCalls =
      some ([1, 0, 0], C) ∧
    (∃ q', C.During 2 (.append 7 1 2147484160 1 (SdController.turns 100)) q') ∧
    (∃ C', C.call 2 (.read 7 1 0 1 2149580800 blockTurns) = some (2149580800, C')) ∧
    C.fs.findIndex 1 = .ok (some 2155880440) ∧ ¬ C.fs.heldByOther 2155880440 7 ∧
    Chain C.fs.nextBlock (C.fs.firstBlock 2155880440) [0] := by
  have hdec : (((init FsSystem.blank.fs blankCard).call 2 (.create (fun _ => 97) 1
      (some 2155880440))).bind fun r₁ => (r₁.2.call 2 (.openFile 7 1)).bind fun r₂ =>
        (finishBlock (runAppendFile 2 r₂.2.fs 7 1 2147483648 1) r₂.2.q).bind fun a =>
          (run sdController.step (runAppendFile 2 a.1.2 7 1 2147484160 1, a.2)
            (SdController.turns 100)).bind fun _ =>
              (finishBlock (runReadDatablock 2 a.1.2 7 1 0 1 2149580800) a.2).map fun b =>
                decide ((r₁.1 = 1 ∧ r₂.1 = 0 ∧ a.1.1 = 0 ∧ (ptrVal b.1 : Int) = 2149580800) ∧
                  a.1.2.findIndex 1 = .ok (some 2155880440) ∧ ¬ a.1.2.heldByOther 2155880440 7 ∧
                  Chain a.1.2.nextBlock (a.1.2.firstBlock 2155880440) [0])) = some true := by
    decide +kernel
  obtain ⟨⟨c₁, C₁⟩, hcreate, hdec⟩ := Option.bind_eq_some_iff.1 hdec
  obtain ⟨⟨c₂, C₂⟩, hopen, hdec⟩ := Option.bind_eq_some_iff.1 hdec
  obtain ⟨⟨⟨c₃, fs₃⟩, q₃⟩, happend, hdec⟩ := Option.bind_eq_some_iff.1 hdec
  obtain ⟨⟨d, q₄⟩, hcut, hdec⟩ := Option.bind_eq_some_iff.1 hdec
  obtain ⟨⟨p, q₅⟩, hread, hdec⟩ := Option.map_eq_some_iff.1 hdec
  obtain ⟨⟨hc₁, hc₂, hc₃, hp⟩, hfile⟩ := of_decide_eq_true hdec
  dsimp only at hc₁ hc₂ hc₃ hp hfile hopen happend hcut hread
  subst hc₁ hc₂ hc₃
  have hcall : ∃ l, C₂.call 2 (.append 7 1 2147483648 1 blockTurns) = some (0, ⟨fs₃, q₃, l⟩) :=
    ⟨_, congrArg (Option.map _) (finish_block happend)⟩
  obtain ⟨l, hcall⟩ := hcall
  have hcall' : (⟨fs₃, q₃, l⟩ : CardSystem).call 2 (.read 7 1 0 1 2149580800 blockTurns) =
      some ((ptrVal p : Int), ⟨fs₃, q₅, l⟩) := congrArg (Option.map _) (finish_block hread)
  rw [hp] at hcall'
  refine ⟨⟨fs₃, q₃, l⟩, ?_, ⟨q₄, d, hcut⟩, ⟨_, hcall'⟩, hfile⟩
  unfold sampleCalls
  rw [replies, hcreate, Option.bind_some, replies, hopen, Option.bind_some, replies, hcall]
  rfl

/-! ## Main results -/

/-- A run with its controller is a run over the disk that the card is: the same calls return the
same values. -/
theorem card_run_refines (hq : q.Ready 512) (hk : ∀ e ∈ es, e.InKernel)
    (hrun : replies (CardSystem.call polls) (init fs q) es = some (rets, C)) :
    ∃ es' S, List.Forall₂ CardEvent.Matches es es' ∧
      replies FsSystem.callThen (FsSystem.init ⟨fs, kernelView q.mem, cardBlock q⟩) es' =
        some (rets, S) ∧ Related C S := by
  obtain ⟨es', S, hmatch, hreplies, hrel, -⟩ := run_simulates hq hk hrun
  exact ⟨es', S, hmatch, hreplies, hrel⟩

theorem card_run_refines_sample : ∃ C es' S,
    replies (CardSystem.call 2) (init FsSystem.blank.fs blankCard) sampleCalls =
      some ([1, 0, 0], C) ∧
    replies FsSystem.callThen (FsSystem.init ⟨FsSystem.blank.fs, kernelView blankCard.mem,
      cardBlock blankCard⟩) es' = some ([1, 0, 0], S) ∧ S.w.fs = C.fs := by
  obtain ⟨C, hrun, -⟩ := sampleCalls_run
  obtain ⟨es', S, -, hdisk, hrel⟩ := card_run_refines blankCard_ready sampleCalls_inKernel hrun
  exact ⟨C, es', S, hrun, hdisk, hrel.fs⟩

/-- Whenever a call is cut off, the card has in every file what the appends before it were given. -/
theorem card_keeps_files (hq : q.Ready 512) (hk : ∀ e ∈ es, e.InKernel)
    (hrun : replies (CardSystem.call polls) (init fs q) es = some (rets, C)) {e : CardEvent}
    (he : e.InKernel) {q' : SdController} (hduring : C.During polls e q') :
    ∃ (files : List Nat) (chain : Nat → List Nat), Chain C.fs.nextEntry C.fs.fentryHead files ∧
      ∀ x ∈ files, Chain C.fs.nextBlock (C.fs.firstBlock x) (chain x) ∧
        (chain x).map (fun b => cardBlock q' (sector b)) = C.appended (C.fs.indexNumber x) := by
  obtain ⟨-, S, -, -, hrel, files, free, chain, hI⟩ := run_simulates hq hk hrun
  have hown := hrel.owned hI
  exact ⟨files, chain, hown.file_list, fun x hx => ⟨hown.chains x hx,
    hrel.contents hI (hrel.during hI he hduring) hx⟩⟩

/-- The second append is cut off while its block moves. -/
theorem card_keeps_files_sample : ∃ (C : CardSystem) (q' : SdController) (files : List Nat)
    (chain : Nat → List Nat),
    C.During 2 (.append 7 1 2147484160 1 (SdController.turns 100)) q' ∧
      Chain C.fs.nextEntry C.fs.fentryHead files ∧
      ∀ x ∈ files, (chain x).map (fun b => cardBlock q' (sector b)) =
        C.appended (C.fs.indexNumber x) := by
  obtain ⟨C, hrun, ⟨q', hcut⟩, -⟩ := sampleCalls_run
  have hkernel : CardEvent.InKernel (.append 7 1 2147484160 1 (SdController.turns 100)) := by
    simp [CardEvent.InKernel, KERNEL_BASE]
  obtain ⟨files, chain, hfiles, hchains⟩ :=
    card_keeps_files blankCard_ready sampleCalls_inKernel hrun hkernel hcut
  exact ⟨C, q', files, chain, hcut, hfiles, fun x hx => (hchains x hx).2⟩

/-- A permitted read within a file fails, or leaves in the buffer what was appended to the file. -/
theorem card_read_returns_appended (hq : q.Ready 512) (hk : ∀ e ∈ es, e.InKernel)
    (hrun : replies (CardSystem.call polls) (init fs q) es = some (rets, C))
    {pid index pos size buf x : Nat} {bs : List Nat} {turns : List (Turn SdMove)}
    (hfound : C.fs.findIndex index = .ok (some x)) (hpermitted : ¬ C.fs.heldByOther x pid)
    (hbs : Chain C.fs.nextBlock (C.fs.firstBlock x) bs) (hpos : pos ≤ bs.length)
    (hbuf : KERNEL_BASE ≤ buf) (hroom : buf + 512 * size ≤ 4294967296)
    (hcall : C.call polls (.read pid index pos size buf turns) = some (c, C')) :
    c = 0 ∨ c = buf ∧ ∀ k < min size (bs.length - pos),
      (C.appended index)[pos + k]? = some (blockAt (kernelView C'.q.mem) (buf + 512 * k)) := by
  obtain ⟨-, S, -, -, hrel, files, free, chain, hI⟩ := run_simulates hq hk hrun
  have hown := hrel.owned hI
  obtain ⟨hx, hindex⟩ := found_file hown hfound
  obtain rfl : bs = chain x := Chain.unique hbs (hown.chains x hx)
  have hcontents := hrel.contents hI (fun _ _ => rfl) hx
  rw [hindex] at hcontents
  refine (hrel.read hI hfound hpermitted hpos hbuf hroom hcall).imp_right fun h => ⟨h.1, ?_⟩
  intro k hk
  have hlt : pos + k < (chain x).length := by omega
  have hb := List.getElem?_eq_getElem hlt
  rw [← hcontents, List.getElem?_map, hb, h.2 k _ (by omega) hb]
  rfl

theorem card_read_returns_appended_sample : ∃ C C' : CardSystem,
    C.call 2 (.read 7 1 0 1 2149580800 blockTurns) = some (2149580800, C') ∧
      (C.appended 1)[0]? = some (blockAt (kernelView C'.q.mem) 2149580800) := by
  obtain ⟨C, hrun, -, ⟨C', hcall⟩, hfind, hheld, hchain⟩ := sampleCalls_run
  obtain hzero | ⟨-, hblocks⟩ := card_read_returns_appended blankCard_ready sampleCalls_inKernel hrun
    hfind hheld hchain (by decide) (by decide) (by decide) hcall
  · exact absurd hzero (by decide)
  · exact ⟨C, C', hcall, hblocks 0 (by decide)⟩

end CardSystem

end Aimv6.Fs
