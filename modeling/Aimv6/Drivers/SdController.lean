import Aimv6.Drivers.SdZynq7000
import Aimv6.Base
import Aimv6.Support.ByteMemory

/-! # The controller and its DMA

The controller moves the bytes of a transfer one by one between the card and
memory, whenever it likes, stops at each boundary of a buffer and reports what
it has done in the interrupt status. Along every run with the driver a transfer
has moved its first so many bytes and nothing else, and all of them when the
driver returns 0.
-/

namespace Aimv6.Drivers

open Support

inductive SdPhase where
  | idle
  /-- a command is on its way to the card -/
  | command (cmd : Nat)
  /-- so many bytes of the transfer are moved -/
  | moving (moved : Nat)
  /-- and the controller waits at a boundary -/
  | stopped (moved : Nat)
deriving DecidableEq, Repr

/-- The registers, memory and the card. -/
structure SdController where
  phase : SdPhase
  sysAddr : Nat
  blkSize : Nat
  blkCnt : Nat
  argmt : Nat
  xferMode : Nat
  /-- `SD_INTR_CC` of the interrupt status -/
  cc : Bool
  /-- `SD_INTR_DMA` -/
  dma : Bool
  /-- `SD_INTR_TC` -/
  tc : Bool
  /-- `SD_INTR_ERR` -/
  err : Bool
  mem : Memory
  card : Memory
  /-- the bytes of the card that an argument counts: 512, or 1 on an old card -/
  unit : Nat

/-- What the controller does on its own. -/
inductive SdMove where
  | answer
  | fail
  | move
  | complete

namespace SdController

def total (q : SdController) : Nat := q.blkSize % 4096 * q.blkCnt

/-- The size of a buffer, which the upper bits of the block size give. -/
def boundary (q : SdController) : Nat := 4096 * 2 ^ (q.blkSize / 4096 % 8)

def moveByte (q : SdController) (moved : Nat) : SdController :=
  let at' := q.argmt * q.unit + moved
  let read := q.xferMode &&& SD_TM_DAT_DIR_SEL != 0
  let next := add32 q.sysAddr 1
  let stops := next % q.boundary = 0 ∧ moved + 1 < q.total
  { q with
    mem := if read then store8 q.mem q.sysAddr (q.card at') else q.mem
    card := if read then q.card else store8 q.card at' (q.mem q.sysAddr)
    sysAddr := next
    phase := if stops then .stopped (moved + 1) else .moving (moved + 1)
    dma := q.dma || decide stops }

def own (q : SdController) : SdMove → Option SdController
  | .answer =>
      match q.phase with
      | .command cmd => some { q with
          phase := if cmd &&& SD_DAT_PRESENT ≠ 0 then .moving 0 else .idle
          cc := true }
      | _ => none
  | .fail =>
      match q.phase with
      | .idle => none
      | _ => some { q with
          phase := .idle
          err := true }
  | .move =>
      match q.phase with
      | .moving moved => if moved < q.total then some (q.moveByte moved) else none
      | _ => none
  | .complete =>
      match q.phase with
      | .moving moved =>
          if moved = q.total then some { q with
            phase := .idle
            tc := true }
          else none
      | _ => none

/-- Whether the interrupt status may be `v`. -/
def status (q : SdController) (v : Nat) : Bool :=
  (v &&& SD_INTR_CC != 0) == q.cc && (v &&& SD_INTR_DMA != 0) == q.dma &&
    (v &&& SD_INTR_TC != 0) == q.tc && (v &&& SD_INTR_ERR != 0) == q.err

def write (q : SdController) : SdReg → Nat → SdController
  | .sdmaSysAddr, v =>
      { q with
        sysAddr := v
        phase := match q.phase with
          | .stopped moved => .moving moved
          | phase => phase }
  | .blkSize, v => { q with blkSize := v }
  | .blkCnt, v => { q with blkCnt := v }
  | .argmt, v => { q with argmt := v }
  | .xferMode, v => { q with xferMode := v }
  | .cmd, v => { q with phase := .command v }
  | .swRst, v =>
      if v &&& SD_SWRST_ALL_MASK ≠ 0 then
        { q with
          phase := .idle
          sysAddr := 0
          blkSize := 0
          blkCnt := 0
          argmt := 0
          xferMode := 0
          cc := false
          dma := false
          tc := false
          err := false }
      else q
  | .normIntrSts, v =>
      { q with
        cc := q.cc && v &&& SD_INTR_CC == 0
        dma := q.dma && v &&& SD_INTR_DMA == 0
        tc := q.tc && v &&& SD_INTR_TC == 0 }
  | .errIntrSts, v => { q with err := q.err && v &&& SD_ERR_INTR_ALL == 0 }
  | _, _ => q

end SdController

/-- The controller as a device: what it does not report is any value. -/
def sdController : Device SdReg SdController SdMove where
  answers q r v :=
    match r with
    | .normIntrSts => q.status v
    | .sdmaSysAddr => v = q.sysAddr
    | .memory a => v = (q.mem a).toNat
    | _ => true
  read q _ _ := q
  write := SdController.write
  own := SdController.own

/-- A controller whose block size is set, with the card in blocks of 512 bytes. -/
def SdController.fresh (mem card : Memory) : SdController :=
  ⟨.idle, 0, 512, 0, 0, 0, false, false, false, false, mem, card, 512⟩

def SdController.answered : List (Turn SdMove) :=
  List.replicate 8 (.access 0) ++ [.own .answer, .access SD_INTR_CC, .access 0]

/-- The turns of a transfer that moves `n` bytes between no boundaries, up to its end. -/
def SdController.turns (n : Nat) : List (Turn SdMove) :=
  .access SD_PSR_CARD_INSRT :: .access 0 :: answered ++ List.replicate n (.own .move)

def SdController.ended : List (Turn SdMove) := [.own .complete, .access SD_INTR_TC, .access 0]

/-! ## Transfers at a stroke -/

/-- The controller behind `n` bytes of a transfer. -/
def SdController.movedBytes (q : SdController) (n : Nat) : SdController :=
  let read := q.xferMode &&& SD_TM_DAT_DIR_SEL != 0
  { q with
    mem := if read then storeBytes q.sysAddr n (fun i => q.card (q.argmt * q.unit + i)) q.mem
      else q.mem
    card := if read then q.card
      else storeBytes (q.argmt * q.unit) n (fun i => q.mem (q.sysAddr + i)) q.card
    sysAddr := q.sysAddr + n
    phase := .moving n }

/-- A transfer of `n` bytes begins that comes to no boundary. -/
def SdController.Unstopped (q : SdController) (n : Nat) : Prop :=
  q.phase = .moving 0 ∧ q.total = n ∧ q.sysAddr % q.boundary + n ≤ q.boundary ∧
    q.sysAddr + n < 4294967296

instance (q : SdController) (n : Nat) : Decidable (q.Unstopped n) :=
  inferInstanceAs (Decidable (_ ∧ _ ∧ _ ∧ _))

namespace SdController

variable {q : SdController} {n k : Nat}

theorem storeBytes_none (a : Nat) (f : Nat → UInt8) (m : Memory) : storeBytes a 0 f m = m :=
  funext fun b => storeBytes_out (by omega)

theorem movedBytes_zero (hphase : q.phase = .moving 0) : q.movedBytes 0 = q := by
  unfold movedBytes
  dsimp only
  rw [storeBytes_none, storeBytes_none, ite_self, ite_self, ← hphase]
  rfl

theorem movedBytes_step (h : q.Unstopped n) (hk : k < n) :
    (q.movedBytes k).own .move = some (q.movedBytes (k + 1)) := by
  obtain ⟨-, htotal, hspan, hwrap⟩ := h
  have hlt : k < (q.movedBytes k).total := htotal.symm ▸ hk
  have hnext : add32 (q.sysAddr + k) 1 = q.sysAddr + (k + 1) := add32_of_lt (by omega)
  have hstops : ¬ ((q.sysAddr + (k + 1)) % q.boundary = 0 ∧ k + 1 < q.total) := by
    rintro ⟨hzero, hmore⟩
    rw [htotal] at hmore
    have hmod : (q.sysAddr + (k + 1)) % q.boundary = q.sysAddr % q.boundary + (k + 1) := by
      rw [Nat.add_mod, Nat.mod_eq_of_lt (show k + 1 < q.boundary by omega)]
      exact Nat.mod_eq_of_lt (by omega)
    omega
  have hmove : (q.movedBytes k).moveByte k = q.movedBytes (k + 1) := by
    unfold moveByte
    dsimp only [movedBytes, total, boundary] at hstops ⊢
    cases hread : q.xferMode &&& SD_TM_DAT_DIR_SEL != 0 <;>
      simp only [hnext, hstops, storeBytes_succ, if_true, if_false, Bool.false_eq_true, decide_false,
        Bool.or_false]
  exact (if_pos hlt).trans (congrArg some hmove)

theorem run_moves {α : Type} {d : Driver SdReg α} (h : q.Unstopped n) :
    run sdController.step (d, q) (List.replicate n (.own .move)) = some (d, q.movedBytes n) := by
  have hall : ∀ k ≤ n, run sdController.step (d, q) (List.replicate k (.own .move)) =
      some (d, q.movedBytes k) := by
    intro k hk
    induction k with
    | zero =>
        rw [movedBytes_zero h.1]
        rfl
    | succ k ih =>
        rw [List.replicate_succ']
        refine run_concat.2 ⟨_, ih (Nat.le_of_succ_le hk), ?_⟩
        have hmove : sdController.own (q.movedBytes k) .move = some (q.movedBytes (k + 1)) :=
          movedBytes_step h hk
        cases d <;> rw [Device.step, hmove] <;> rfl
  exact hall n (Nat.le_refl n)

end SdController

/-- Turns, and behind them transfers that come to no boundary, taken at a stroke. -/
def runAtOnce {α : Type} : Driver SdReg α × SdController → List (List (Turn SdMove) × Nat) →
    Option (Driver SdReg α × SdController)
  | p, [] => some p
  | p, s :: rest => (run sdController.step p s.1).bind fun p' =>
      if p'.2.Unstopped s.2 then runAtOnce (p'.1, p'.2.movedBytes s.2) rest else none

def turnsOf (l : List (List (Turn SdMove) × Nat)) : List (Turn SdMove) :=
  l.flatMap fun s => s.1 ++ List.replicate s.2 (.own .move)

theorem run_of_runAtOnce {α : Type} {p p' : Driver SdReg α × SdController}
    {l : List (List (Turn SdMove) × Nat)} (h : runAtOnce p l = some p') :
    run sdController.step p (turnsOf l) = some p' := by
  induction l generalizing p with
  | nil => exact h
  | cons s rest ih =>
      obtain ⟨p₁, hrun, hif⟩ := Option.bind_eq_some_iff.1 h
      split at hif
      case isTrue hfree =>
        rw [turnsOf, List.flatMap_cons]
        exact run_append.2 ⟨_, run_append.2 ⟨p₁, hrun, SdController.run_moves hfree⟩, ih hif⟩
      case isFalse => exact absurd hif (by simp)

/-! ## What a transfer moves -/

/-- A transfer: it reads from the card or writes to it, from byte `start` on. -/
structure SdJob where
  reads : Bool
  start : Nat
  total : Nat
  pa : Nat
  va : Nat
  resume : Nat → Nat → Nat × Nat

namespace SdJob

/-- The `va` of the driver and the address of each byte. -/
def route (j : SdJob) : Nat → Nat × Nat
  | 0 => (j.va, j.pa)
  | n + 1 =>
      let next := add32 (j.route n).2 1
      if next % 4096 = 0 then j.resume (j.route n).1 next else ((j.route n).1, next)

/-- Memory and card when the first bytes are moved. -/
def moves (j : SdJob) (s : Memory × Memory) : Nat → Memory × Memory
  | 0 => s
  | n + 1 =>
      let s := j.moves s n
      if j.reads then (store8 s.1 (j.route n).2 (s.2 (j.start + n)), s.2)
      else (s.1, store8 s.2 (j.start + n) (s.1 (j.route n).2))

end SdJob

def SdController.image (q : SdController) : Memory × Memory := (q.mem, q.card)

variable {j : SdJob} {s : Memory × Memory} {q q' : SdController} {u n va polls : Nat}

/-- The registers are set for the transfer. -/
structure SdJob.IsSet (j : SdJob) (u : Nat) (q : SdController) : Prop where
  blkSize : q.blkSize = 512
  unit : q.unit = u
  total : 512 * q.blkCnt = j.total
  start : q.argmt * u = j.start
  reads : (q.xferMode &&& SD_TM_DAT_DIR_SEL != 0) = j.reads

def SdJob.Partway (j : SdJob) (s : Memory × Memory) (q : SdController) : Prop :=
  ∃ n ≤ j.total, q.image = j.moves s n

/-- The transfer is over, by an error or with all its bytes moved. -/
def SdJob.Ended (j : SdJob) (s : Memory × Memory) (q : SdController) : Prop :=
  q.err = true ∧ j.Partway s q ∨
    q.err = false ∧ q.dma = false ∧ q.image = j.moves s j.total

/-- The transfer waits at a boundary for the driver, which has come to `va`. -/
structure SdJob.Waits (j : SdJob) (s : Memory × Memory) (va n : Nat) (q : SdController) : Prop where
  lt : n < j.total
  image : q.image = j.moves s n
  route : j.route n = j.resume va q.sysAddr
  tc : q.tc = false
  err : q.err = false

structure SdJob.Moves (j : SdJob) (s : Memory × Memory) (va n : Nat) (q : SdController) : Prop where
  le : n ≤ j.total
  image : q.image = j.moves s n
  route : n < j.total → j.route n = (va, q.sysAddr)
  dma : q.dma = false
  tc : q.tc = false
  err : q.err = false

/-- A transfer from the answer to its command on. -/
inductive SdJob.Runs (j : SdJob) (s : Memory × Memory) (va : Nat) (q : SdController) : Prop where
  | ended (phase : q.phase = .idle) (h : j.Ended s q)
  | moves (n : Nat) (phase : q.phase = .moving n) (h : j.Moves s va n q)
  | waits (n : Nat) (phase : q.phase = .stopped n) (h : j.Waits s va n q) (dma : q.dma = true)

/-- A transfer that has stopped at `addr`, with its interrupt in the status or not. -/
inductive SdJob.Halted (j : SdJob) (s : Memory × Memory) (va addr : Nat) (dma : Bool)
    (q : SdController) : Prop where
  | failed (phase : q.phase = .idle) (addr : q.sysAddr = addr) (err : q.err = true)
      (h : j.Partway s q)
  | waits (n : Nat) (phase : q.phase = .stopped n) (addr : q.sysAddr = addr) (h : j.Waits s va n q)
      (dma : q.dma = dma)

def SdJob.Running (j : SdJob) (s : Memory × Memory) (u va : Nat) (q : SdController) : Prop :=
  j.IsSet u q ∧ j.Runs s va q

def SdJob.Stopped (j : SdJob) (s : Memory × Memory) (u va addr : Nat) (dma : Bool)
    (q : SdController) : Prop :=
  j.IsSet u q ∧ j.Halted s va addr dma q

namespace SdController

theorem boundary_eq (h : q.blkSize = 512) : q.boundary = 4096 := by
  unfold boundary
  rw [h]
  rfl

theorem total_eq (h : j.IsSet u q) : q.total = j.total := by
  unfold total
  rw [h.blkSize]
  exact h.total

theorem moveByte_runs (hset : j.IsSet u q) (h : j.Moves s va n q) (hn : n < j.total) :
    j.Running s u va (q.moveByte n) := by
  have hroute := h.route hn
  have himage : (q.moveByte n).image = j.moves s (n + 1) := by
    have hmem : q.mem = (j.moves s n).1 := congrArg Prod.fst h.image
    have hcard : q.card = (j.moves s n).2 := congrArg Prod.snd h.image
    have hstart : q.argmt * q.unit = j.start := by
      rw [hset.unit]
      exact hset.start
    unfold image moveByte
    dsimp only
    rw [SdJob.moves, hset.reads, hstart, hmem, hcard, hroute]
    cases j.reads <;> rfl
  refine ⟨⟨hset.blkSize, hset.unit, hset.total, hset.start, hset.reads⟩, ?_⟩
  have hnext : j.route (n + 1) = if add32 q.sysAddr 1 % 4096 = 0 then j.resume va (add32 q.sysAddr 1)
      else (va, add32 q.sysAddr 1) := by
    rw [SdJob.route, hroute]
  by_cases hstops : add32 q.sysAddr 1 % 4096 = 0 ∧ n + 1 < j.total
  · have hphase : (q.moveByte n).phase = .stopped (n + 1) := by
      unfold moveByte
      dsimp only
      rw [boundary_eq hset.blkSize, total_eq hset, if_pos hstops]
    have hdma : (q.moveByte n).dma = true := by
      unfold moveByte
      dsimp only
      rw [boundary_eq hset.blkSize, total_eq hset, decide_eq_true hstops, Bool.or_true]
    exact .waits (n + 1) hphase ⟨hstops.2, himage, hnext.trans (if_pos hstops.1), h.tc, h.err⟩ hdma
  · have hphase : (q.moveByte n).phase = .moving (n + 1) := by
      unfold moveByte
      dsimp only
      rw [boundary_eq hset.blkSize, total_eq hset, if_neg hstops]
    have hdma : (q.moveByte n).dma = false := by
      unfold moveByte
      dsimp only
      rw [boundary_eq hset.blkSize, total_eq hset, decide_eq_false hstops, Bool.or_false]
      exact h.dma
    exact .moves (n + 1) hphase
      ⟨hn, himage, fun hlt => hnext.trans (if_neg fun hz => hstops ⟨hz, hlt⟩), hdma, h.tc, h.err⟩

theorem own_idle {e : SdMove} (h : q.phase = .idle) : q.own e = none := by
  unfold own
  cases e <;> rw [h]

theorem own_runs {e : SdMove} (h : j.Running s u va q) (hown : q.own e = some q') :
    j.Running s u va q' := by
  obtain ⟨hset, hruns⟩ := h
  cases hruns with
  | ended phase h =>
      rw [own_idle phase] at hown
      simp at hown
  | moves n phase h =>
      unfold own at hown
      rw [phase] at hown
      cases e with
      | answer => simp at hown
      | fail =>
          obtain rfl := Option.some.inj hown
          exact ⟨⟨hset.blkSize, hset.unit, hset.total, hset.start, hset.reads⟩,
            .ended rfl (Or.inl ⟨rfl, n, h.le, h.image⟩)⟩
      | move =>
          dsimp only at hown
          split at hown
          · next hn =>
              obtain rfl := Option.some.inj hown
              rw [total_eq hset] at hn
              exact moveByte_runs hset h hn
          · simp at hown
      | complete =>
          dsimp only at hown
          split at hown
          · next hn =>
              obtain rfl := Option.some.inj hown
              rw [total_eq hset] at hn
              refine ⟨⟨hset.blkSize, hset.unit, hset.total, hset.start, hset.reads⟩,
                .ended rfl (Or.inr ⟨h.err, h.dma, ?_⟩)⟩
              rw [← hn]
              exact h.image
          · simp at hown
  | waits n phase h dma =>
      unfold own at hown
      rw [phase] at hown
      cases e with
      | fail =>
          obtain rfl := Option.some.inj hown
          exact ⟨⟨hset.blkSize, hset.unit, hset.total, hset.start, hset.reads⟩,
            .ended rfl (Or.inl ⟨rfl, n, h.lt.le, h.image⟩)⟩
      | answer => simp at hown
      | move => simp at hown
      | complete => simp at hown

theorem own_halted {e : SdMove} {addr : Nat} {dma : Bool} (h : j.Stopped s u va addr dma q)
    (hown : q.own e = some q') : j.Stopped s u va addr dma q' := by
  obtain ⟨hset, hhalted⟩ := h
  cases hhalted with
  | failed phase haddr err h =>
      rw [own_idle phase] at hown
      simp at hown
  | waits n phase haddr h hdma =>
      unfold own at hown
      rw [phase] at hown
      cases e with
      | fail =>
          obtain rfl := Option.some.inj hown
          exact ⟨⟨hset.blkSize, hset.unit, hset.total, hset.start, hset.reads⟩,
            .failed rfl haddr rfl ⟨n, h.lt.le, h.image⟩⟩
      | answer => simp at hown
      | move => simp at hown
      | complete => simp at hown

end SdController

end Aimv6.Drivers
