import Aimv6.Boot.MbrPlacement
import Aimv6.Drivers.Firmware

/-! # From reset to the kernel

The firmware and the boot loader by their accesses to the SD controller. The
loader asks for no return value, so it may enter a kernel that is not there; when
no transfer has failed, memory is what its passes over the file make of it.
-/

namespace Aimv6.Boot

open Support Drivers

/-! ## The loader over the controller -/

/-- The half-word at address `a`. -/
def inputHalf (a : Nat) : Driver SdReg Nat := do
  let b₀ ← Driver.input (.memory a)
  let b₁ ← Driver.input (.memory (a + 1))
  pure (b₀ + 256 * b₁)

/-- The word at address `a`. -/
def inputWord (a : Nat) : Driver SdReg Nat := do
  let h₀ ← inputHalf a
  let h₁ ← inputHalf (a + 2)
  pure (h₀ + 65536 * h₁)

/-- `sd_dma_spin_read(pa, count, offset);` and whether it and those before it have returned 0. -/
def bootRead (polls pa count offset : Nat) (ok : Bool) : Driver SdReg Bool := do
  let ret ← Drivers.sdDmaSpinRead polls pa count offset
  pure (ok && decide (ret = 0))

/-- A pass of the loop, with `phoff`. -/
def bootPass (polls elfAddr phentsize : Nat) (r : Bool × Nat) : Driver SdReg (Bool × Nat) := do
  let ok ← bootRead polls ELF_BUFFER 2 (add32 elfAddr (r.2 >>> 9)) r.1
  let pHeader := ELF_BUFFER + (r.2 &&& 511)
  let pheOffset ← inputWord (pHeader + 4)
  let phePaddr ← inputWord (pHeader + 12)
  let pheFilesz ← inputWord (pHeader + 16)
  let offset := (pheOffset &&& 511) % 256
  let startId := pheOffset >>> 9
  let endId := add32 (sub32 (add32 pheOffset pheFilesz) 1 >>> 9) 1
  let ok ← bootRead polls (sub32 phePaddr offset) (sub32 endId startId % 65536)
    (add32 startId elfAddr) ok
  pure (ok, add32 r.2 phentsize)

def bootPasses (polls elfAddr phentsize : Nat) : Nat → Bool × Nat → Driver SdReg (Bool × Nat)
  | 0, r => pure r
  | n + 1, r => bootPass polls elfAddr phentsize r >>= bootPasses polls elfAddr phentsize n

/-- `mbr_bootmain()`: whether all transfers have returned 0, and the address it calls. -/
def runBootmain (polls : Nat) : Driver SdReg (Bool × Nat) := do
  let ok ← bootRead polls MBR_BUFFER 1 0 true
  let elfAddr ← inputWord (MBR_BUFFER + 0x1D6)
  let ok ← bootRead polls ELF_BUFFER 3 elfAddr ok
  let kernelEntry ← inputWord (ELF_BUFFER + 0x18)
  let phoff ← inputWord (ELF_BUFFER + 0x1C)
  let phentsize ← inputHalf (ELF_BUFFER + 0x2A)
  let phnum ← inputHalf (ELF_BUFFER + 0x2C)
  let r ← bootPasses polls elfAddr phentsize phnum (ok, phoff)
  pure (r.1, kernelEntry)

/-- The firmware, and the boot record that it enters if it finds one. -/
def runBoot (polls : Nat) : Driver SdReg (Option (Bool × Nat)) := do
  let entered ← firmwareBootmain polls
  if entered = true then do
    let r ← runBootmain polls
    pure (some r)
  else pure none

/-! ## Its steps -/

variable {sd : Card} {m : Memory} {q q' : SdController} {polls a : Nat} {ok : Bool}

/-- The controller is idle, and behind it is the card `sd`; if all is well so far, memory is `m`. -/
structure Booting (sd : Card) (ok : Bool) (m : Memory) (q : SdController) : Prop where
  ready : q.Ready 512
  card : q.card = fun a => sd (a % 2199023255552)
  mem : ok = true → q.mem = m

def CardKept (sd : Card) (q : SdController) : Prop := q.card = fun a => sd (a % 2199023255552)

theorem Booting.congr {m' : Memory} (h : Booting sd ok m q) (hm : ok = true → m = m') :
    Booting sd ok m' q :=
  ⟨h.ready, h.card, fun hok => (h.mem hok).trans (hm hok)⟩

theorem bootRead_holds (h : Booting sd ok m q) {pa count offset : Nat} (hpa : pa < 4294967296)
    (hcount : count < 65536) :
    (bootRead polls pa count offset ok).Holds sdController (CardKept sd)
      (fun ok' q' => (ok' = true → ok = true) ∧
        Booting sd ok' (Boot.sdDmaSpinRead sd pa count offset m) q') q := by
  obtain ⟨j, hj⟩ : ∃ j, j = (SdTransfer.read pa count offset).job 512 := ⟨_, rfl⟩
  have hcard : ∀ {q₁ : SdController}, j.Holding q.image 512 q₁ → CardKept sd q₁ := by
    intro q₁ h₁
    obtain ⟨n, -, himage⟩ := h₁.partway
    refine (congrArg Prod.snd himage).trans (funext fun b => ?_)
    rw [moves_card (Or.inl (by rw [hj]; rfl))]
    exact congrFun h.card b
  have hread := @SdTransfer.holds 512 polls q (.read pa count offset) h.ready
  rw [← hj] at hread
  refine Driver.holds_bind ((hread.weaken (fun q₁ h₁ => hcard h₁) fun ret q₁ h₁ => h₁).mono
    fun ret q₁ h₁ => ?_)
  have hkept := hcard h₁.holding
  refine Driver.still_done (fun _ => SdController.own_idle h₁.idle) hkept
    ⟨fun hall => (Bool.and_eq_true_iff.1 hall).1,
      ⟨h₁.idle, h₁.holding.blkSize, h₁.holding.unit⟩, hkept, fun hall => ?_⟩
  obtain ⟨hok, hret⟩ := Bool.and_eq_true_iff.1 hall
  have himage := h₁.all (of_decide_eq_true hret)
  have htotal : j.total = 512 * count := by rw [hj]; rfl
  have hmoved := @moves_wrap j q.image (512 * count) (by rw [hj]; rfl) (by rw [hj]; exact hpa)
    (by omega) fun i _ => by
      rw [hj]
      exact congrArg Prod.snd (route_wrap rfl hpa)
  rw [htotal, hmoved] at himage
  have hstart : j.start = 512 * offset := by
    rw [hj]
    exact Nat.mul_comm offset 512
  have hjpa : j.pa = pa := by rw [hj]; rfl
  refine (congrArg Prod.fst himage).trans (funext fun b => ?_)
  unfold Boot.sdDmaSpinRead Card.byte
  dsimp only
  rw [hstart, hjpa]
  show (if _ then q.card _ else q.mem b) = _
  rw [h.card, h.mem hok]

theorem load32_mod (m : Memory) (a : Nat) :
    load32 m a % 65536 = (m a).toNat + 256 * (m (a + 1)).toNat := by
  have h₀ := (m a).toNat_lt
  have h₁ := (m (a + 1)).toNat_lt
  unfold load32
  omega

theorem load32_halves (m : Memory) (a : Nat) :
    load32 m a = load32 m a % 65536 + 65536 * (load32 m (a + 2) % 65536) := by
  have hlast : (m (a + 2 + 1)).toNat = (m (a + 3)).toNat := rfl
  rw [load32_mod, load32_mod]
  unfold load32
  omega

theorem inputHalf_holds (h : Booting sd ok m q) (a : Nat) :
    (inputHalf a).Holds sdController (CardKept sd)
      (fun v q' => Booting sd ok m q' ∧ (ok = true → v = load32 m a % 65536)) q := by
  refine Driver.still_input (fun _ => SdController.own_idle h.ready.idle) h.card fun b₀ hb₀ => ?_
  refine Driver.still_input (fun _ => SdController.own_idle h.ready.idle) h.card fun b₁ hb₁ => ?_
  refine Driver.still_done (fun _ => SdController.own_idle h.ready.idle) h.card ⟨h, fun hok => ?_⟩
  have hb₀ : b₀ = (q.mem a).toNat := of_decide_eq_true hb₀
  have hb₁ : b₁ = (q.mem (a + 1)).toNat := of_decide_eq_true hb₁
  rw [load32_mod, hb₀, hb₁, h.mem hok]

theorem inputWord_holds (h : Booting sd ok m q) (a : Nat) :
    (inputWord a).Holds sdController (CardKept sd)
      (fun v q' => Booting sd ok m q' ∧ (ok = true → v = load32 m a)) q := by
  refine Driver.holds_bind ((inputHalf_holds h a).mono fun h₀ q₀ hq₀ => ?_)
  refine Driver.holds_bind ((inputHalf_holds hq₀.1 (a + 2)).mono fun h₁ q₁ hq₁ => ?_)
  refine Driver.still_done (fun _ => SdController.own_idle hq₁.1.ready.idle) hq₁.1.card
    ⟨hq₁.1, fun hok => ?_⟩
  rw [load32_halves, hq₀.2 hok, hq₁.2 hok]

/-! ## The loop -/

/-- The passes have come to `s`, unless a transfer has failed; `ok` is how they began. -/
structure Passed (sd : Card) (ok : Bool) (s : Memory × Nat) (r : Bool × Nat) (q : SdController) :
    Prop where
  before : r.1 = true → ok = true
  booting : Booting sd r.1 s.1 q
  phoff : r.1 = true → r.2 = s.2

variable {s : Memory × Nat} {r : Bool × Nat} {e size : Nat}

theorem sub32_lt (a b : Nat) : sub32 a b < 4294967296 := Nat.mod_lt _ (by decide)

theorem bootPass_holds (h : Passed sd ok s r q) :
    (bootPass polls e size r).Holds sdController (CardKept sd)
      (fun r' q' => Passed sd ok (bootHeader sd e size s) r' q') q := by
  refine Driver.holds_bind ((bootRead_holds h.booting (show ELF_BUFFER < 4294967296 by decide)
    (show 2 < 65536 by decide)).mono fun ok₁ q₁ h₁ => ?_)
  obtain ⟨hok₁, hboot₁⟩ := h₁
  refine Driver.holds_bind ((inputWord_holds hboot₁ _).mono fun v₁ q₂ h₂ => ?_)
  refine Driver.holds_bind ((inputWord_holds h₂.1 _).mono fun v₂ q₃ h₃ => ?_)
  refine Driver.holds_bind ((inputWord_holds h₃.1 _).mono fun v₃ q₄ h₄ => ?_)
  refine Driver.holds_bind ((bootRead_holds h₄.1 (sub32_lt _ _)
    (Nat.mod_lt _ (show 0 < 65536 by decide))).mono fun ok₂ q₅ h₅ => ?_)
  obtain ⟨hok₂, hboot₅⟩ := h₅
  refine Driver.still_done (fun _ => SdController.own_idle hboot₅.ready.idle) hboot₅.card
    ⟨fun hall => h.before (hok₁ (hok₂ hall)), hboot₅.congr fun hall => ?_, fun hall => ?_⟩
  · have hphoff := h.phoff (hok₁ (hok₂ hall))
    unfold bootHeader bootSegment
    dsimp only
    rw [h₂.2 (hok₂ hall), h₃.2 (hok₂ hall), h₄.2 (hok₂ hall), hphoff]
  · unfold bootHeader
    dsimp only
    rw [h.phoff (hok₁ (hok₂ hall))]

theorem bootPasses_holds (h : Passed sd ok s r q) (n : Nat) :
    (bootPasses polls e size n r).Holds sdController (CardKept sd)
      (fun r' q' => Passed sd ok (Nat.iterate (bootHeader sd e size) n s) r' q') q := by
  induction n generalizing q r s with
  | zero =>
      exact Driver.still_done (fun _ => SdController.own_idle h.booting.ready.idle) h.booting.card h
  | succ n ih => exact Driver.holds_bind ((bootPass_holds h).mono fun r' q' h' => ih h')

theorem runBootmain_holds (h : Booting sd true m q) :
    (runBootmain polls).Holds sdController (CardKept sd)
      (fun r q' => r.1 = true → (q'.mem, r.2) = mbrBootmain sd m) q := by
  refine Driver.holds_bind ((bootRead_holds h (show MBR_BUFFER < 4294967296 by decide)
    (show 1 < 65536 by decide)).mono fun ok₁ q₁ h₁ => ?_)
  refine Driver.holds_bind ((inputWord_holds h₁.2 _).mono fun elfAddr q₂ h₂ => ?_)
  refine Driver.holds_bind ((bootRead_holds h₂.1 (show ELF_BUFFER < 4294967296 by decide)
    (show 3 < 65536 by decide)).mono fun ok₂ q₃ h₃ => ?_)
  refine Driver.holds_bind ((inputWord_holds h₃.2 _).mono fun entry q₄ h₄ => ?_)
  refine Driver.holds_bind ((inputWord_holds h₄.1 _).mono fun phoff q₅ h₅ => ?_)
  refine Driver.holds_bind ((inputHalf_holds h₅.1 _).mono fun phentsize q₆ h₆ => ?_)
  refine Driver.holds_bind ((inputHalf_holds h₆.1 _).mono fun phnum q₇ h₇ => ?_)
  have hpassed : Passed sd ok₂ (Boot.sdDmaSpinRead sd ELF_BUFFER 3 elfAddr
      (Boot.sdDmaSpinRead sd MBR_BUFFER 1 0 m), phoff) (ok₂, phoff) q₇ := ⟨id, h₇.1, fun _ => rfl⟩
  refine Driver.holds_bind ((bootPasses_holds hpassed phnum).mono fun r q₈ h₈ => ?_)
  refine Driver.still_done (fun _ => SdController.own_idle h₈.booting.ready.idle) h₈.booting.card
    fun hall => ?_
  have hok₂ := h₈.before hall
  have hmem := h₈.booting.mem hall
  have helf := h₂.2 (h₃.1 hok₂)
  unfold mbrBootmain mbrPasses mbrStart
  dsimp only
  rw [hmem, h₄.2 hok₂, h₅.2 hok₂, h₆.2 hok₂, h₇.2 hok₂, helf]

/-! ## The chain -/

/-- What is left when the kernel is called, from `q` on. -/
def Booted (sd : Card) (q : SdController) (r : Option (Bool × Nat)) (q' : SdController) : Prop :=
  ∀ ok entry, r = some (ok, entry) → sd 510 = 0x55 ∧ sd 511 = 0xAA ∧
    (ok = true → (q'.mem, entry) = mbrBootmain sd (storeBytes 0x100000 512 q.card q.mem))

theorem runBoot_holds (hidle : q.phase = .idle) (hunit : q.unit = 512) (hcard : CardKept sd q) :
    (runBoot polls).Holds sdController (CardKept sd) (Booted sd q) q := by
  refine Driver.holds_bind (((firmware_holds hidle).weaken (fun q₁ h₁ => ?_)
    fun entered q₁ h₁ => h₁).settle.mono fun entered q₁ h₁ => ?_)
  · obtain ⟨n, -, -, hsame⟩ := h₁
    exact hsame.trans hcard
  · cases entered with
    | false => exact fun q₂ h₂ => ⟨(h₁ q₂ h₂).1, fun ok entry h => absurd h (by simp)⟩
    | true =>
        obtain ⟨hkept, hentered⟩ := h₁ q₁ (.refl q₁)
        obtain ⟨hready, ⟨hmem, -⟩, hfirst, hsecond⟩ := hentered rfl
        rw [hunit] at hready
        rw [hcard] at hfirst hsecond
        have hboot : Booting sd true (storeBytes 0x100000 512 q.card q.mem) q₁ :=
          ⟨hready, hkept, fun _ => hmem⟩
        refine Driver.holds_bind ((runBootmain_holds hboot).settle.mono fun r q₂ h₂ => ?_)
        refine fun q₃ h₃ => ⟨(h₂ q₃ h₃).1, fun ok entry h => ⟨hfirst, hsecond, fun hok => ?_⟩⟩
        obtain rfl := Option.some.inj h
        exact (h₂ q₃ h₃).2 hok

/-- From reset with a card of blocks, whatever the controller does: nothing is written to the card,
and a kernel that is called behind transfers that have all returned 0 is called with the memory and
at the address that the boot loader makes of the card at a stroke. -/
theorem boot_chain_refines (hidle : q.phase = .idle) (hunit : q.unit = 512)
    (hcard : q.card = fun a => sd (a % 2199023255552)) {es : List (Turn SdMove)}
    {d' : Driver SdReg (Option (Bool × Nat))}
    (hrun : run sdController.step (runBoot polls, q) es = some (d', q')) :
    q'.card = q.card ∧ ∀ ok entry, d' = .done (some (ok, entry)) →
      sd 510 = 0x55 ∧ sd 511 = 0xAA ∧
      (ok = true → (q'.mem, entry) = mbrBootmain sd (storeBytes 0x100000 512 q.card q.mem)) := by
  obtain ⟨hkept, hdone⟩ := (runBoot_holds hidle hunit hcard).run hrun
  exact ⟨Eq.trans hkept hcard.symm, fun ok entry h => hdone _ h ok entry rfl⟩

/-- A card with a boot record, whose second partition at sector 1 is an ELF file with one segment of
four bytes, and its entry. -/
def bootCard : Card :=
  [(0x1D6, 1), (508, 0xAA550000), (512, 0x464C457F), (512 + 0x18, 0x200000), (512 + 0x1C, 52),
    (512 + 0x28, 0x200034), (512 + 0x2C, 1), (564, PT_LOAD), (568, 512), (576, 0x200000), (580, 4),
    (584, 4), (1024, 0x11111111)].foldl (fun m w => store32 m w.1 w.2) fun _ => 0

/-- The turns of a word that is read from memory. -/
def wordTurns (v : Nat) : List (Turn SdMove) :=
  [.access (v % 256), .access (v / 256 % 256), .access (v / 65536 % 256), .access (v / 16777216)]

/-- From reset to the last byte of the kernel on that card. -/
def bootReads : List (List (Turn SdMove) × Nat) :=
  [(List.replicate 3 (.access 0) ++ .access SD_CC_INT_CLK_STABLE :: List.replicate 9 (.access 0) ++
      .access SD_PSR_CARD_INSRT :: SdController.answered ++ SdController.answered ++
      .access SD_CMD8_VOL_PATTERN :: SdController.answered ++ SdController.answered ++
      .access SD_RESP_READY :: SdController.answered ++ SdController.answered ++
      .access 0x10000 :: SdController.answered ++ SdController.answered ++ SdController.turns 0, 512),
    (SdController.ended ++ [.access 0x55, .access 0xAA] ++ SdController.turns 0, 512),
    (SdController.ended ++ wordTurns 1 ++ SdController.turns 0, 1536),
    (SdController.ended ++ wordTurns 0x200000 ++ wordTurns 52 ++
      [.access 0x20, .access 0, .access 1, .access 0] ++ SdController.turns 0, 1024),
    (SdController.ended ++ wordTurns 512 ++ wordTurns 0x200000 ++ wordTurns 4 ++
      SdController.turns 0, 512)]

theorem bootReads_boot : ∃ q', run sdController.step (runBoot 2, SdController.fresh (fun _ => 0)
    fun a => bootCard (a % 2199023255552)) (turnsOf bootReads ++ SdController.ended) =
      some (.done (some (true, 0x200000)), q') := by
  have hboot : ((runAtOnce (runBoot 2, SdController.fresh (fun _ => 0)
      fun a => bootCard (a % 2199023255552)) bootReads).bind fun p =>
        (run sdController.step p SdController.ended).bind fun p' => p'.1.result) =
      some (some (true, 0x200000)) := by decide +kernel
  obtain ⟨p, hreads, hrest⟩ := Option.bind_eq_some_iff.1 hboot
  obtain ⟨q', hlast⟩ := Driver.run_result sdController p SdController.ended hrest
  exact ⟨q', run_append.2 ⟨p, run_of_runAtOnce hreads, hlast⟩⟩

theorem boot_chain_refines_sample : ∃ q' : SdController, (q'.mem, 0x200000) = mbrBootmain bootCard
    (storeBytes 0x100000 512 (fun a => bootCard (a % 2199023255552)) fun _ => 0) := by
  obtain ⟨q', hrun⟩ := bootReads_boot
  exact ⟨q', ((boot_chain_refines rfl rfl rfl hrun).2 true 0x200000 rfl).2.2 rfl⟩

/-! ## The kernel in its place -/

theorem mbrStart_kernelEntry (sd : Card) (m : Memory) :
    (mbrStart sd m).kernelEntry = load32 (file sd (elfAddr sd)) 0x18 := by
  rw [← (mbrStart_started sd m).elfAddr]
  unfold mbrStart
  dsimp only
  apply load32_eq
  intro i hi
  unfold ELF_BUFFER
  rw [sdDmaSpinRead_in (by omega) (by omega) (by omega)]
  exact congrArg _ (by omega)

/-- From reset with a card that holds a boot record and an image with fine headers: when the kernel
is called behind transfers that have all returned 0, each of its segments lies in its place, and the
call goes to its entry. -/
theorem kernel_in_place (hidle : q.phase = .idle) (hunit : q.unit = 512)
    (hcard : q.card = fun a => sd (a % 2199023255552))
    (himage : Image (phnum (file sd (elfAddr sd))) (phdr (file sd (elfAddr sd))))
    (hfine : Fine (phnum (file sd (elfAddr sd))) (phdr (file sd (elfAddr sd))))
    {es : List (Turn SdMove)} {entry : Nat}
    (hrun : run sdController.step (runBoot polls, q) es = some (.done (some (true, entry)), q')) :
    let f := file sd (elfAddr sd)
    entry = load32 f 0x18 ∧ ∀ k < phnum f, (phdr f k).type = PT_LOAD → ∀ j < (phdr f k).filesz,
      q'.mem ((phdr f k).address j) = f ((phdr f k).offset + j) := by
  have hboot := ((((runBoot_holds hidle hunit hcard).run hrun).2 _ rfl) true entry rfl).2.2 rfl
  obtain ⟨hmem, hentry⟩ := Prod.mk.inj hboot
  generalize storeBytes 0x100000 512 q.card q.mem = m at hmem hentry
  have hsegments : Placing (phnum (file sd (elfAddr sd))) (phdr (file sd (elfAddr sd)))
      (file sd (elfAddr sd)) (segments sd (elfAddr sd) (phdr (file sd (elfAddr sd))) m) :=
    hfine.placing himage
  have hplacing := hsegments.congr (fun k hk hseg j hj => Set.disjoint_left.1
    (himage.clear k hk hseg) (ProgramHeader.address_mem_image hj (himage.short k hk hseg)))
    fun k b hb => (mbrPasses_spec sd m k).2 b hb
  refine ⟨hentry.trans (mbrStart_kernelEntry sd m), ?_⟩
  rw [hmem, (mbrStart_started sd m).phnum]
  exact hplacing.placed

theorem bootCard_elfAddr : elfAddr bootCard = 1 := by decide +kernel

theorem bootCard_phnum : phnum (file bootCard 1) = 1 := by decide +kernel

theorem bootCard_phdr : let e := phdr (file bootCard 1) 0
    e.type = PT_LOAD ∧ e.offset = 512 ∧ e.paddr = 0x200000 ∧ e.filesz = 4 := by decide +kernel

theorem bootCard_blocks : (phdr (file bootCard 1) 0).blocks = 1 := by decide +kernel

theorem bootCard_image : Image (phnum (file bootCard 1)) (phdr (file bootCard 1)) := by
  obtain ⟨-, -, hpaddr, hfilesz⟩ := bootCard_phdr
  rw [bootCard_phnum]
  constructor
  case short =>
    intro k hk _
    obtain rfl := Nat.lt_one_iff.1 hk
    omega
  case apart =>
    intro k hk l hl hne
    omega
  case clear =>
    intro k hk _
    obtain rfl := Nat.lt_one_iff.1 hk
    apply Set.disjoint_left.2
    intro b hb hbuf
    have hin := hb.2
    have hbuf : MBR_BUFFER ≤ b ∧ b < MBR_BUFFER + 512 ∨ ELF_BUFFER ≤ b ∧ b < ELF_BUFFER + 1536 := hbuf
    unfold MBR_BUFFER ELF_BUFFER at hbuf
    rw [bootCard_blocks, hpaddr] at hin
    unfold sub32 at hin
    omega

theorem bootCard_fine : Fine (phnum (file bootCard 1)) (phdr (file bootCard 1)) := by
  obtain ⟨htype, hoffset, -, hfilesz⟩ := bootCard_phdr
  rw [bootCard_phnum]
  constructor
  case segment =>
    intro k hk _
    obtain rfl := Nat.lt_one_iff.1 hk
    rw [hoffset, bootCard_blocks]
    decide
  case other =>
    intro k hk hseg
    obtain rfl := Nat.lt_one_iff.1 hk
    exact absurd ⟨htype, by omega⟩ hseg

theorem kernel_in_place_sample : ∃ q' : SdController,
    ∀ j < 4, q'.mem (add32 0x200000 j) = file bootCard 1 (512 + j) := by
  obtain ⟨q', hrun⟩ := bootReads_boot
  obtain ⟨htype, hoffset, hpaddr, hfilesz⟩ := bootCard_phdr
  have himage := bootCard_image
  have hfine := bootCard_fine
  rw [← bootCard_elfAddr] at himage hfine
  have hplaced := (kernel_in_place rfl rfl rfl himage hfine hrun).2
  rw [bootCard_elfAddr, bootCard_phnum] at hplaced
  have hfirst := hplaced 0 (by decide) htype
  unfold ProgramHeader.address at hfirst
  rw [hoffset, hpaddr, hfilesz] at hfirst
  exact ⟨q', hfirst⟩

end Aimv6.Boot
