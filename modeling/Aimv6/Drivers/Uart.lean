import Aimv6.Base
import Aimv6.Libc.SnprintfBounds
import Aimv6.Support.Driver

/-! # The serial line

`drivers/serial`: output and input by polling, on the two controllers that the
code knows. A controller has a FIFO for each direction, which the line empties
and fills whenever it likes; a byte written to a full FIFO is lost. The bytes of
a string go out in order, and the bytes that come in are read once.
-/

namespace Aimv6.Drivers

open Support

/-- What the polling functions of a controller are made of. -/
structure Chip where
  status : Nat
  txReg : Nat
  rxReg : Nat
  /-- the test that ends the loop of `uart_spin_putbyte` -/
  txReady : Nat → Bool
  /-- the test that ends the loop of `uart_spin_getbyte` -/
  rxReady : Nat → Bool
  apart : status ≠ txReg ∧ status ≠ rxReg

def UART_OFFSET_SR : Nat := 0x2C

def UART_OFFSET_FIFO : Nat := 0x30

def UART_SR_RXEMPTY : Nat := 0x0002

def UART_SR_TXFULL : Nat := 0x0010

/-- `uart-zynq7000.c` -/
def uartZynq7000 : Chip where
  status := UART_OFFSET_SR
  txReg := UART_OFFSET_FIFO
  rxReg := UART_OFFSET_FIFO
  txReady v := v &&& UART_SR_TXFULL == 0
  rxReady v := v &&& UART_SR_RXEMPTY == 0
  apart := by decide

def UART_RCV_BUFFER : Nat := 0

def UART_TRANS_HOLD : Nat := 0

def UART_LINE_STATUS : Nat := 5

def UART_LSR_THRE : Nat := 0x20

def UART_LSR_DATA_READY : Nat := 0x01

/-- `uart16550.c` -/
def uart16550 : Chip where
  status := UART_LINE_STATUS
  txReg := UART_TRANS_HOLD
  rxReg := UART_RCV_BUFFER
  txReady v := v &&& UART_LSR_THRE != 0
  rxReady v := v &&& UART_LSR_DATA_READY != 0
  apart := by decide

def uartSpinPutbyte (c : Chip) (polls : Nat) (byte : UInt8) : Driver Nat Unit := do
  Driver.poll (do
    let v ← Driver.input c.status
    pure (if c.txReady v then some () else none)) polls
  Driver.output c.txReg byte.toNat

def uartSpinGetbyte (c : Chip) (polls : Nat) : Driver Nat UInt8 := do
  Driver.poll (do
    let v ← Driver.input c.status
    pure (if c.rxReady v then some () else none)) polls
  let v ← Driver.input c.rxReg
  pure (UInt8.ofNat v)

/-- `uart_spin_puts(str)` from character `i` on. -/
def uartSpinPuts (c : Chip) (polls : Nat) (str : Nat → UInt8) : Nat → Nat → Driver Nat Unit
  | 0, _ => .waiting
  | fuel + 1, i =>
      if str i = 0 then pure ()
      else do
        uartSpinPutbyte c polls (str i)
        uartSpinPuts c polls str fuel (i + 1)

/-- `uart_spin_gets(str)`: the bytes that it stores, behind those in `str`. -/
def uartSpinGets (c : Chip) (polls : Nat) : Nat → List UInt8 → Driver Nat (List UInt8)
  | 0, _ => .waiting
  | fuel + 1, str => do
      let b ← uartSpinGetbyte c polls
      if b = 0 then pure (str ++ [b]) else uartSpinGets c polls fuel (str ++ [b])

/-! ## The line -/

/-- The two FIFOs of a controller, what has left them, and what went wrong. -/
structure Line where
  txFifo : List UInt8
  sent : List UInt8
  /-- bytes that met a full FIFO -/
  lost : List UInt8
  /-- what came in and was not lost -/
  came : List UInt8
  rxFifo : List UInt8
  taken : List UInt8
  /-- reads that met an empty FIFO -/
  empty : Nat

inductive LineEvent where
  /-- a byte leaves the FIFO -/
  | shift
  /-- a byte arrives -/
  | arrive (b : UInt8)

/-- The controller `c` with FIFOs of `depth` bytes. It may keep the driver waiting, but when it says
that it is ready there is room, or a byte. -/
def line (c : Chip) (depth : Nat) : Device Nat Line LineEvent where
  answers q r v :=
    if r = c.status then
      (!c.txReady v || decide (q.txFifo.length < depth)) && (!c.rxReady v || !q.rxFifo.isEmpty)
    else if r = c.rxReg then
      match q.rxFifo with
      | [] => true
      | b :: _ => decide (UInt8.ofNat v = b)
    else true
  read q r v :=
    if r = c.rxReg then
      match q.rxFifo with
      | [] => { q with empty := q.empty + 1 }
      | _ :: rest =>
          { q with
            rxFifo := rest
            taken := q.taken ++ [UInt8.ofNat v] }
    else q
  write q r v :=
    if r = c.txReg then
      if q.txFifo.length < depth then { q with txFifo := q.txFifo ++ [UInt8.ofNat v] }
      else { q with lost := q.lost ++ [UInt8.ofNat v] }
    else q
  own q
    | .shift =>
        match q.txFifo with
        | [] => none
        | b :: rest =>
            some { q with
              txFifo := rest
              sent := q.sent ++ [b] }
    | .arrive b =>
        if q.rxFifo.length < depth then
          some { q with
            came := q.came ++ [b]
            rxFifo := q.rxFifo ++ [b] }
        else some q

def Line.stream (q : Line) : List UInt8 := q.sent ++ q.txFifo

variable {c : Chip} {depth polls fuel : Nat} {q q' : Line} {W S L : List UInt8}

/-- What the line leaves as it is. -/
structure Line.Later (q q' : Line) : Prop where
  stream : q'.stream = q.stream
  room : q'.txFifo.length ≤ q.txFifo.length
  lost : q'.lost = q.lost
  taken : q'.taken = q.taken
  empty : q'.empty = q.empty
  /-- more bytes may have arrived -/
  arrived : q.rxFifo <+: q'.rxFifo
  ledger : q.came = q.taken ++ q.rxFifo → q'.came = q'.taken ++ q'.rxFifo

theorem Line.Later.of_drifts (h : (line c depth).Drifts q q') : Line.Later q q' := by
  refine h.invariant (P := fun q' => Line.Later q q') (fun q₁ e q₂ h₁ hown => ?_)
    ⟨rfl, Nat.le_refl _, rfl, rfl, rfl, List.prefix_refl _, id⟩
  cases e with
  | shift =>
      unfold line at hown
      dsimp only at hown
      cases hfifo : q₁.txFifo with
      | nil => rw [hfifo] at hown; cases hown
      | cons b rest =>
          rw [hfifo] at hown
          obtain rfl := Option.some.inj hown
          refine ⟨?_, ?_, h₁.lost, h₁.taken, h₁.empty, h₁.arrived, h₁.ledger⟩
          · rw [← h₁.stream]
            unfold Line.stream
            rw [hfifo, List.append_assoc]
            rfl
          · have hroom := h₁.room
            rw [hfifo, List.length_cons] at hroom
            exact Nat.le_trans (Nat.le_succ _) hroom
  | arrive b =>
      unfold line at hown
      dsimp only at hown
      split at hown
      · obtain rfl := Option.some.inj hown
        refine ⟨h₁.stream, h₁.room, h₁.lost, h₁.taken, h₁.empty,
          h₁.arrived.trans (List.prefix_append _ _), fun hq => ?_⟩
        show q₁.came ++ [b] = q₁.taken ++ (q₁.rxFifo ++ [b])
        rw [h₁.ledger hq, List.append_assoc]
      · obtain rfl := Option.some.inj hown
        exact h₁

/-! ## Output -/

/-- The stream has come from `S` some way towards `W`. -/
structure Line.Along (L S W : List UInt8) (q : Line) : Prop where
  lost : q.lost = L
  from_ : S <+: q.stream
  towards : q.stream <+: W

/-- The stream is `S` and nothing more was lost. -/
def Line.At (L S : List UInt8) (q : Line) : Prop := q.lost = L ∧ q.stream = S

theorem Line.At.later (h : q.At L S) (hq : Line.Later q q') : q'.At L S :=
  ⟨hq.lost.trans h.1, hq.stream.trans h.2⟩

theorem Line.At.along {S₀ : List UInt8} (h : q.At L S) (h₀ : S₀ <+: S) (hW : S <+: W) :
    q.Along L S₀ W :=
  ⟨h.1, h.2 ▸ h₀, h.2 ▸ hW⟩

theorem room_of_answer {v : Nat} (h : (line c depth).answers q c.status v = true)
    (hready : c.txReady v = true) : q.txFifo.length < depth := by
  unfold line at h
  dsimp only at h
  rw [if_pos rfl, hready] at h
  simp only [Bool.not_true, Bool.false_or, Bool.and_eq_true, decide_eq_true_eq] at h
  exact h.1

theorem line_write {byte : UInt8} (h : q.txFifo.length < depth) :
    (line c depth).write q c.txReg byte.toNat = { q with txFifo := q.txFifo ++ [byte] } := by
  unfold line
  dsimp only
  rw [if_pos rfl, if_pos h, UInt8.ofNat_toNat]

theorem putbyte_holds {S₀ : List UInt8} {byte : UInt8} (hq : q.At L S) (h₀ : S₀ <+: S)
    (hW : S ++ [byte] <+: W) :
    (uartSpinPutbyte c polls byte).Holds (line c depth) (Line.Along L S₀ W)
      (fun _ => Line.At L (S ++ [byte])) q := by
  have hSW : S <+: W := (List.prefix_append S [byte]).trans hW
  refine Driver.holds_bind (Driver.holds_poll (P := Line.At L S) (fun q₀ h =>
    Driver.holds_input fun q₁ hd => ?_) polls hq)
  -- the poll
  have h₁ := h.later (.of_drifts hd)
  refine ⟨h₁.along h₀ hSW, fun v hv => Driver.holds_done fun q₂ hd₂ => ?_⟩
  have hsame : (line c depth).read q₁ c.status v = q₁ := if_neg c.apart.2
  rw [hsame] at hd₂
  have hlater := Line.Later.of_drifts hd₂
  have h₂ := h₁.later hlater
  refine ⟨h₂.along h₀ hSW, ?_⟩
  by_cases hready : c.txReady v = true
  · rw [if_pos hready]
    -- ready, so there is room, now and when the byte is written
    have hroom := room_of_answer hv hready
    refine Driver.holds_output (k := Driver.done) fun q₃ hd₃ => ?_
    have hlater₃ := Line.Later.of_drifts hd₃
    have h₃ := h₂.later hlater₃
    refine ⟨h₃.along h₀ hSW, Driver.holds_done fun q₄ hd₄ => ?_⟩
    have hlt : q₃.txFifo.length < depth :=
      Nat.lt_of_le_of_lt (hlater₃.room.trans hlater.room) hroom
    rw [line_write hlt] at hd₄
    have hlater₄ := Line.Later.of_drifts hd₄
    have hat : q₄.At L (S ++ [byte]) := by
      refine ⟨hlater₄.lost.trans h₃.1, hlater₄.stream.trans ?_⟩
      rw [← h₃.2]
      exact (List.append_assoc ..).symm
    exact ⟨hat.along (h₀.trans (List.prefix_append S [byte])) hW, hat⟩
  · rw [if_neg hready]
    exact h₂

theorem puts_holds {str : Nat → UInt8} {S₀ out : List UInt8} {i : Nat} (hq : q.At L S)
    (h₀ : S₀ <+: S) (hstr : Libc.Holds (fun k => str (i + k)) out) (hnul : 0 ∉ out)
    (hW : S ++ out <+: W) :
    (uartSpinPuts c polls str fuel i).Holds (line c depth) (Line.Along L S₀ W)
      (fun _ => Line.At L (S ++ out)) q := by
  induction fuel generalizing S q i out with
  | zero =>
      intro q₁ hd
      exact (hq.later (.of_drifts hd)).along h₀ ((List.prefix_append S out).trans hW)
  | succ fuel ih =>
      rw [uartSpinPuts]
      obtain ⟨hchars, hend⟩ := hstr
      cases out with
      | nil =>
          have hi : str i = 0 := hend
          rw [if_pos hi]
          intro q₁ hd
          have h₁ := hq.later (.of_drifts hd)
          rw [List.append_nil] at hW ⊢
          exact ⟨h₁.along h₀ hW, h₁⟩
      | cons b out =>
          have hb : str i = b := hchars 0 (Nat.succ_pos _)
          have hne : b ≠ 0 := fun hc => hnul (hc ▸ List.mem_cons_self ..)
          rw [if_neg (by rw [hb]; exact hne), hb]
          rw [show S ++ b :: out = S ++ [b] ++ out by simp] at hW ⊢
          refine Driver.holds_bind ((putbyte_holds hq h₀
            ((List.prefix_append _ out).trans hW)).mono fun _ q₁ h₁ => ?_)
          refine ih h₁ (h₀.trans (List.prefix_append S [b])) ⟨fun k hk => ?_, ?_⟩
            (fun hc => hnul (List.mem_cons_of_mem b hc)) hW
          · have hchar : str (i + (k + 1)) = out[k] := hchars (k + 1) (Nat.succ_lt_succ hk)
            rwa [show i + (k + 1) = i + 1 + k by omega] at hchar
          · have hlast : str (i + (out.length + 1)) = 0 := hend
            rwa [show i + (out.length + 1) = i + 1 + out.length by omega] at hlast

/-! ## Input -/

/-- The bytes `R` have been read, no further read met an empty FIFO, and the bytes that came are
those read and those waiting. -/
structure Line.Taken (R : List UInt8) (n : Nat) (q : Line) : Prop where
  taken : q.taken = R
  empty : q.empty = n
  came : q.came = q.taken ++ q.rxFifo

/-- The bytes `R` were read first. -/
structure Line.Reading (R : List UInt8) (n : Nat) (q : Line) : Prop where
  taken : R <+: q.taken
  empty : q.empty = n
  came : q.came = q.taken ++ q.rxFifo

variable {R str : List UInt8} {n : Nat}

theorem Line.Taken.later (h : q.Taken R n) (hq : Line.Later q q') : q'.Taken R n :=
  ⟨hq.taken.trans h.taken, hq.empty.trans h.empty, hq.ledger h.came⟩

theorem Line.Taken.reading (h : q.Taken R n) {R₀ : List UInt8} (h₀ : R₀ <+: R) : q.Reading R₀ n :=
  ⟨h.taken ▸ h₀, h.empty, h.came⟩

theorem byte_of_answer {v : Nat} (h : (line c depth).answers q c.status v = true)
    (hready : c.rxReady v = true) : q.rxFifo ≠ [] := by
  unfold line at h
  dsimp only at h
  rw [if_pos rfl, hready] at h
  simp only [Bool.not_true, Bool.false_or, Bool.and_eq_true] at h
  intro hc
  rw [hc] at h
  exact absurd h.2 (by decide)

theorem line_read {w : Nat} {b : UInt8} {rest : List UInt8} (hfifo : q.rxFifo = b :: rest)
    (h : (line c depth).answers q c.rxReg w = true) : UInt8.ofNat w = b ∧
    (line c depth).read q c.rxReg w =
      { q with
        rxFifo := rest
        taken := q.taken ++ [UInt8.ofNat w] } := by
  unfold line at h ⊢
  dsimp only at h ⊢
  rw [if_neg (Ne.symm c.apart.2), if_pos rfl, hfifo] at h
  rw [if_pos rfl, hfifo]
  exact ⟨of_decide_eq_true h, rfl⟩

theorem getbyte_holds (hq : q.Taken R n) :
    (uartSpinGetbyte c polls).Holds (line c depth) (Line.Reading R n)
      (fun b => Line.Taken (R ++ [b]) n) q := by
  have hR := List.prefix_refl R
  refine Driver.holds_bind (Driver.holds_poll (P := Line.Taken R n) (fun q₀ h =>
    Driver.holds_input fun q₁ hd => ?_) polls hq)
  have h₁ := h.later (.of_drifts hd)
  refine ⟨h₁.reading hR, fun v hv => Driver.holds_done fun q₂ hd₂ => ?_⟩
  have hsame : (line c depth).read q₁ c.status v = q₁ := if_neg c.apart.2
  rw [hsame] at hd₂
  have hlater := Line.Later.of_drifts hd₂
  have h₂ := h₁.later hlater
  refine ⟨h₂.reading hR, ?_⟩
  by_cases hready : c.rxReady v = true
  · rw [if_pos hready]
    have hwaits := byte_of_answer hv hready
    refine Driver.holds_input fun q₃ hd₃ => ?_
    have hlater₃ := Line.Later.of_drifts hd₃
    have h₃ := h₂.later hlater₃
    refine ⟨h₃.reading hR, fun w hw => Driver.holds_done fun q₄ hd₄ => ?_⟩
    obtain ⟨b, rest, hfifo⟩ : ∃ b rest, q₃.rxFifo = b :: rest := by
      have hprefix := hlater.arrived.trans hlater₃.arrived
      cases hfifo : q₃.rxFifo with
      | nil =>
          rw [hfifo] at hprefix
          exact absurd (List.prefix_nil.1 hprefix) hwaits
      | cons b rest => exact ⟨b, rest, rfl⟩
    obtain ⟨hbyte, hread⟩ := line_read hfifo hw
    rw [hread] at hd₄
    have hcame : q₃.came = q₃.taken ++ [UInt8.ofNat w] ++ rest := by
      rw [h₃.came, hfifo, hbyte, List.append_assoc]
      rfl
    have htaken : Line.Taken (R ++ [UInt8.ofNat w]) n
        { q₃ with
          rxFifo := rest
          taken := q₃.taken ++ [UInt8.ofNat w] } := ⟨by rw [← h₃.taken], h₃.empty, hcame⟩
    have h₄ := htaken.later (.of_drifts hd₄)
    exact ⟨h₄.reading (List.prefix_append R _), h₄⟩
  · rw [if_neg hready]
    exact h₂

theorem gets_holds (hq : q.Taken R n) :
    (uartSpinGets c polls fuel str).Holds (line c depth) (Line.Reading R n)
      (fun out q' => ∃ l, out = str ++ (l ++ [0]) ∧ 0 ∉ l ∧ q'.Taken (R ++ (l ++ [0])) n) q := by
  induction fuel generalizing R str q with
  | zero => exact fun q₁ hd => (hq.later (.of_drifts hd)).reading (List.prefix_refl R)
  | succ fuel ih =>
      rw [uartSpinGets]
      refine Driver.holds_bind ((getbyte_holds hq).settle.mono fun b q₁ h₁ => ?_)
      by_cases hb : b = 0
      · rw [if_pos hb]
        refine Driver.holds_done fun q₂ hd => ?_
        obtain ⟨hsafe, h₂⟩ := h₁ q₂ hd
        rw [hb] at h₂ ⊢
        exact ⟨hsafe, [], rfl, List.not_mem_nil, h₂⟩
      · rw [if_neg hb]
        refine (ih (h₁ q₁ (.refl q₁)).2).weaken (fun q₂ h₂ => ?_) fun out q₂ ho => ?_
        · exact ⟨(List.prefix_append R [b]).trans h₂.taken, h₂.empty, h₂.came⟩
        · obtain ⟨l, rfl, hl, htaken⟩ := ho
          refine ⟨b :: l, by simp, fun hc => ?_, by simpa using htaken⟩
          rcases List.mem_cons.1 hc with hc | hc
          · exact hb hc.symm
          · exact hl hc

/-- While `uart_spin_gets` runs every byte that came is read or waits, in order, and no read meets an
empty FIFO; the string it returns is made of the bytes read, up to the first NUL. -/
theorem gets_received {es : List (Turn LineEvent)} {d' : Driver Nat (List UInt8)}
    (hcame : q.came = q.taken ++ q.rxFifo)
    (hrun : run (line c depth).step (uartSpinGets c polls fuel [], q) es = some (d', q')) :
    q'.came = q'.taken ++ q'.rxFifo ∧ q'.empty = q.empty ∧ q.taken <+: q'.taken ∧
      ∀ str, d' = .done str → q'.taken = q.taken ++ str ∧ ∃ l, str = l ++ [0] ∧ 0 ∉ l := by
  obtain ⟨hsafe, hdone⟩ := Driver.Holds.run (gets_holds ⟨rfl, rfl, hcame⟩) hrun
  refine ⟨hsafe.came, hsafe.empty, hsafe.taken, fun str hd => ?_⟩
  obtain ⟨l, rfl, hl, htaken⟩ := hdone str hd
  exact ⟨htaken.taken, l, rfl, hl⟩

def sampleInput : List (Turn LineEvent) :=
  [.access 2, .own (.arrive 65), .access 0, .access 65, .access 2, .own (.arrive 0), .access 0,
    .access 0]

/-- A byte and a NUL come in, and the driver finds nothing in between. -/
theorem gets_received_sample : ∃ q' : Line,
    run (line uartZynq7000 64).step (uartSpinGets uartZynq7000 3 3 [], ⟨[], [], [], [], [], [], 0⟩)
      sampleInput = some (.done [65, 0], q') ∧
    q'.taken = [] ++ [65, 0] ∧ ∃ l : List UInt8, [65, 0] = l ++ [0] ∧ 0 ∉ l := by
  have hrun : run (line uartZynq7000 64).step
      (uartSpinGets uartZynq7000 3 3 [], ⟨[], [], [], [], [], [], 0⟩) sampleInput =
      some (.done [65, 0], ⟨[], [], [], [65, 0], [], [65, 0], 0⟩) := rfl
  exact ⟨_, hrun, (gets_received rfl hrun).2.2.2 [65, 0] rfl⟩

end Aimv6.Drivers
