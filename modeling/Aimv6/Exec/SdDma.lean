import Aimv6.Mm.Pte

/-! # Transfers from the card

`sd_dma_spin_read` and `sd_dma_spin_load`: the controller stores consecutive
bytes from its address register on and pauses at every 4 KiB boundary. The
driver sets it going again, the first one where it stands, the second one at the
frame of the next virtual page.
-/

namespace Aimv6.Exec

open Support Mm

def BLOCK_SIZE : Nat := 512

/-- The controller and its card, as far as the driver sees them. -/
structure SdCard where
  /-- `SD_PSR_CARD_INSRT` -/
  inserted : Bool
  /-- whether `sd_spin_send_cmd(SD_CMD18, count, offset, 1)` returns 0 -/
  answers : Nat → Nat → Bool
  sector : Nat → Fin 512 → UInt8
  /-- the byte of a transfer at which an error interrupt comes, if any -/
  fault : Option Nat

namespace SdCard

/-- Byte `k` of the sectors from `offset` on. -/
def byte (sd : SdCard) (offset k : Nat) : UInt8 :=
  sd.sector (offset + k / 512) (Fin.ofNat 512 k)

/-- How far a transfer comes that is to reach byte `last`. -/
def reach (sd : SdCard) (last : Nat) : Nat := min last (sd.fault.getD last)

structure Works (sd : SdCard) : Prop where
  inserted : sd.inserted = true
  answers : ∀ count offset, sd.answers count offset = true
  fault : sd.fault = none

end SdCard

/-- The controller stores `f 0`, `f 1`, ..., seen by the kernel from address `a` on. -/
def transfer (s : State) (a n : Nat) (f : Nat → UInt8) : State :=
  { s with mem := storeBytes a n f s.mem }

@[simp] theorem transfer_mem (s : State) (a n : Nat) (f : Nat → UInt8) :
    (transfer s a n f).mem = storeBytes a n f s.mem := rfl

/-- The loop on the interrupt status, by the polls that find an interrupt: `done` of `total` bytes
are stored and the address register holds `reg`. Upon a DMA interrupt `resume` gives the new `va`
and the address to write back. -/
def spin (sd : SdCard) (offset total : Nat) (resume : State → Nat → Nat → Nat × Nat) :
    Nat → Nat → Nat → Nat → State → Res (Int × State)
  | 0, _, _, _, _ => .error .diverge
  | fuel + 1, done, va, reg, s =>
      let last := min total (done + (FRAME_SIZE - reg % FRAME_SIZE))
      let s := transfer s (P2V reg) (sd.reach last - done) fun k => sd.byte offset (done + k)
      if sd.reach last < last then .ok (-3, s)
      -- transfer complete
      else if last = total then .ok (0, s)
      else
        let next := resume s va (reg + (last - done))
        spin sd offset total resume fuel last next.1 next.2 s

def command (s : State) (sd : SdCard) (pa count offset : Nat)
    (resume : State → Nat → Nat → Nat × Nat) (va : Nat) : Res (Int × State) :=
  if sd.inserted = false then .ok (-1, s)
  else if sd.answers count offset = false then .ok (-2, s)
  else spin sd offset (BLOCK_SIZE * count) resume (BLOCK_SIZE * count + 1) 0 va pa s

/-- `sd_dma_spin_read(pa, count, offset)`: the address register is written back as it was read. -/
def sdDmaSpinRead (s : State) (sd : SdCard) (pa count offset : Nat) : Res (Int × State) :=
  command s sd pa count offset (fun _ va reg => (va, reg)) 0

def walkV2p (s : State) (va pageTable : Nat) : Nat :=
  let l2tp := P2V (s.word (add32 pageTable (4 * (va / PAGE_L1SIZE))) >>> 10 <<< 10)
  s.word (add32 l2tp (4 * (va % PAGE_L1SIZE / PAGE_L2SIZE))) &&& 0xFFFFF000

/-- What `sd_dma_spin_load` does upon a DMA interrupt. -/
def nextPage (pageTable : Nat) (s : State) (va reg : Nat) : Nat × Nat :=
  if reg % FRAME_SIZE = 0 then
    let va := add32 va 0x1000
    (va, walkV2p s va pageTable)
  else (va, reg)

def sdDmaSpinLoad (s : State) (sd : SdCard) (va count offset pageTable : Nat) : Res (Int × State) :=
  command s sd (walkV2p s va pageTable) count offset (nextPage pageTable) va

/-! ## The bytes of the card -/

theorem SdCard.byte_shift (sd : SdCard) (offset p k : Nat) :
    sd.byte (offset + p / 512) (p % 512 + k) = sd.byte offset (p + k) := by
  have hsector : offset + p / 512 + (p % 512 + k) / 512 = offset + (p + k) / 512 := by omega
  have hbyte : (p % 512 + k) % 512 = (p + k) % 512 := by omega
  unfold SdCard.byte
  rw [hsector]
  congr 1
  exact Fin.ext hbyte

theorem SdCard.Works.reach {sd : SdCard} (h : sd.Works) (last : Nat) : sd.reach last = last := by
  unfold SdCard.reach
  rw [h.fault]
  exact Nat.min_self last

variable {sd : SdCard} {s s' : State} {offset total count pa n b : Nat} {f : Nat → UInt8}
  {resume : State → Nat → Nat → Nat × Nat}

/-! ## The loop ends -/

theorem spin_total {fuel done va reg : Nat} (h : total - done < fuel) :
    ∃ r, spin sd offset total resume fuel done va reg s = .ok r := by
  induction fuel generalizing done va reg s with
  | zero => exact absurd h (Nat.not_lt_zero _)
  | succ fuel ih =>
      have hpage : reg % FRAME_SIZE < FRAME_SIZE := Nat.mod_lt _ (by decide)
      rw [spin]
      dsimp only
      split
      · exact ⟨_, rfl⟩
      · split
        · exact ⟨_, rfl⟩
        · exact ih (by omega)

theorem command_total {va : Nat} : ∃ r, command s sd pa count offset resume va = .ok r := by
  unfold command
  split
  · exact ⟨_, rfl⟩
  · split
    · exact ⟨_, rfl⟩
    · exact spin_total (by omega)

theorem SdCard.Works.spin (h : sd.Works) {fuel done va reg : Nat} {r : Int × State}
    (hrun : spin sd offset total resume fuel done va reg s = .ok r) : r.1 = 0 := by
  induction fuel generalizing done va reg s with
  | zero => simp [Exec.spin] at hrun
  | succ fuel ih =>
      rw [Exec.spin] at hrun
      dsimp only at hrun
      rw [h.reach, if_neg (Nat.lt_irrefl _)] at hrun
      split at hrun
      · rw [← Except.ok.inj hrun]
      · exact ih hrun

theorem SdCard.Works.command (h : sd.Works) {va : Nat} {r : Int × State}
    (hrun : command s sd pa count offset resume va = .ok r) : r.1 = 0 := by
  unfold Exec.command at hrun
  rw [h.inserted, h.answers, if_neg (by decide), if_neg (by decide)] at hrun
  exact h.spin hrun

end Aimv6.Exec
