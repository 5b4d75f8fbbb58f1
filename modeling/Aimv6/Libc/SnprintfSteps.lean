import Aimv6.Libc.Snprintf
import Mathlib.Tactic.Ring

/-! # Every step of the formatter is in bounds and leads on

At each control point it is known what is left of the format. The digits that
are still to come fit into the buffer: after `k` of them the value is below
`2 ^ 64 / 8 ^ k`. A silent step goes forward in the format, or to a later place
in the body of the loop.
-/

namespace Aimv6.Libc

open Support

variable {T : Target} {m : State T} {text : Long T → List UInt8}

/-- The directive or character at `fmt` is one that the rest of the format stands behind. -/
def Ends (fmt : List UInt8) : Prop := ∃ ch rest, fmt = ch :: rest ∧ complete false rest = true

theorem complete_inside {fmt : List UInt8} (h : complete true fmt = true) :
    ∃ ch rest, fmt = ch :: rest ∧ complete (isDigit ch) rest = true := by
  cases fmt with
  | nil => exact absurd h (by simp [complete])
  | cons ch rest =>
      rw [complete] at h
      by_cases hzero : ch = 0
      · rw [if_pos hzero] at h
        exact absurd h (by simp)
      · rw [if_neg hzero, if_pos rfl] at h
        exact ⟨ch, rest, rfl, h⟩

theorem complete_outside {fmt : List UInt8} (h : complete false fmt = true)
    (hend : deref fmt ≠ 0) : ∃ ch rest, fmt = ch :: rest ∧
      complete (decide (ch = '%'.toUInt8)) rest = true := by
  cases fmt with
  | nil => exact absurd rfl hend
  | cons ch rest =>
      have hzero : ch ≠ 0 := hend
      rw [complete, if_neg hzero] at h
      exact ⟨ch, rest, rfl, h⟩

/-- The labels of the flag and of the width are those of the digits. -/
theorem Label.of_digit {ch : UInt8} :
    Label.of ch = .zero ∨ Label.of ch = .nonzero ↔ isDigit ch = true := by
  unfold Label.of
  split
  case isTrue h => subst h; decide
  split
  case isTrue h => subst h; decide
  split
  case isTrue h =>
    cases h with
    | inl h => subst h; decide
    | inr h => subst h; decide
  split
  case isTrue h => subst h; decide
  split
  case isTrue h => subst h; decide
  split
  case isTrue h => subst h; decide
  split
  case isTrue h => subst h; decide
  split
  case isTrue h => subst h; decide
  split
  case isTrue h => simp [h]
  case isFalse h => simp [h]

theorem complete_ends {fmt : List UInt8} (h : complete true fmt = true)
    (hlabel : Label.of (deref fmt) ≠ .zero) (hlabel' : Label.of (deref fmt) ≠ .nonzero) :
    Ends fmt := by
  obtain ⟨ch, rest, rfl, hrest⟩ := complete_inside h
  have hdigit : isDigit ch = false := by
    rw [Bool.eq_false_iff, ne_eq, ← Label.of_digit]
    exact not_or.2 ⟨hlabel, hlabel'⟩
  rw [hdigit] at hrest
  exact ⟨ch, rest, rfl, hrest⟩

theorem complete_digit {fmt : List UInt8} (h : complete true fmt = true)
    (hdigit : isDigit (deref fmt) = true) :
    ∃ ch rest, fmt = ch :: rest ∧ complete true rest = true := by
  obtain ⟨ch, rest, rfl, hrest⟩ := complete_inside h
  have hch : isDigit ch = true := hdigit
  rw [hch] at hrest
  exact ⟨ch, rest, rfl, hrest⟩

/-- The digits that are still to come fit into the buffer. -/
structure DigitsFit (m : State T) : Prop where
  base : 8 ≤ m.base.toNat
  count : m.bufPos ≤ 22
  value : m.uval.toNat * 8 ^ m.bufPos < 18446744073709551616

def Inv (m : State T) : Prop :=
  match m.control with
  | .main => complete false m.fmt = true
  | .fmtLoop => complete true m.fmt = true
  | .widthLoop => complete true m.fmt = true
  | .digitLoop => Ends m.fmt ∧ DigitsFit m
  | .printDigits => Ends m.fmt ∧ m.bufPos ≤ BUF_SIZE
  | .zeroPad => Ends m.fmt ∧ m.bufPos ≤ BUF_SIZE
  | .blankPad => Ends m.fmt ∧ m.bufPos ≤ BUF_SIZE
  | .copyString => Ends m.fmt
  | .padString => Ends m.fmt
  | .nextFmt => Ends m.fmt
  | .printDefault => Ends m.fmt
  | .beyond => False

/-- How far the body of the loop still is from its next turn. -/
def place (m : State T) : Nat :=
  match m.control with
  | .main => 50
  | .fmtLoop => 60
  | .widthLoop => if isDigit (deref m.fmt) then 55 else 65
  | .digitLoop => 32 - m.bufPos
  | .printDigits => 9
  | .zeroPad => 9
  | .blankPad => 9
  | .copyString => 30
  | .padString => 20
  | .nextFmt => 5
  | .printDefault => 40
  | .beyond => 0

def rank (m : State T) : Nat := m.fmt.length * 100 + place m

/-- A step that keeps the invariant, goes on and does not fault. -/
def Fine (m : State T) : Action (State T) → Prop
  | .silent m' => Inv m' ∧ rank m' < rank m
  | .emit _ m' => Inv m'
  | .stop => True
  | .fault => False

theorem place_le (m : State T) : place m ≤ 65 := by
  unfold place
  split <;> first | omega | (split <;> omega)

theorem rank_skip {ch : UInt8} {rest : List UInt8} {m m' : State T} (h : m.fmt = ch :: rest)
    (h' : m'.fmt = rest) (hplace : place m' < 100 + place m) : rank m' < rank m := by
  unfold rank
  rw [h, h', List.length_cons]
  omega

theorem rank_place {m m' : State T} (h : m'.fmt = m.fmt) (hplace : place m' < place m) :
    rank m' < rank m := by
  unfold rank
  rw [h]
  omega

theorem skip_cons {ch : UInt8} {rest : List UInt8} (h : m.fmt = ch :: rest) (control : Control) :
    m.skip control = { m with control := control, fmt := rest } := by
  unfold State.skip
  rw [h]

/-! ## The control points -/

theorem main_fine (hc : m.control = .main) (h : complete false m.fmt = true) :
    Fine m (State.step text m) := by
  unfold State.step
  rw [hc]
  dsimp only
  split
  case isTrue => trivial
  case isFalse hend =>
    obtain ⟨ch, rest, hfmt, hrest⟩ := complete_outside h hend
    split
    case isTrue hpercent =>
      rw [skip_cons hfmt]
      have hch : ch = '%'.toUInt8 := by rw [hfmt] at hpercent; exact hpercent
      rw [decide_eq_true hch] at hrest
      exact ⟨hrest, rank_skip hfmt rfl (by simp [place, hc])⟩
    case isFalse hpercent =>
      have hch : ch ≠ '%'.toUInt8 := by rw [hfmt] at hpercent; exact hpercent
      rw [decide_eq_false hch] at hrest
      exact ⟨⟨ch, rest, hfmt, hrest⟩, rank_place rfl (by simp [place, hc])⟩

theorem toNat_lt_top (a : Long T) : a.toNat < 18446744073709551616 := by
  have h := a.isLt
  have hle : 2 ^ T.longBits ≤ 2 ^ 64 := Nat.pow_le_pow_right (by decide) (by cases T <;> decide)
  omega

theorem base_eight : (8 : Long T).toNat = 8 := by cases T <;> rfl

theorem base_ten : (10 : Long T).toNat = 10 := by cases T <;> rfl

theorem base_sixteen : (16 : Long T).toNat = 16 := by cases T <;> rfl

theorem DigitsFit.start {base : Long T} (hbase : 8 ≤ base.toNat) (m : State T) (u : Long T)
    (flag : BitVec 32) : DigitsFit { m.getUint base with uval := u, flag := flag } where
  base := hbase
  count := Nat.zero_le 22
  value := by
    show u.toNat * 8 ^ 0 < _
    rw [Nat.pow_zero, Nat.mul_one]
    exact toNat_lt_top u

theorem getUint_fine (hc : m.control = .fmtLoop) (h : Ends m.fmt) {base : Long T}
    (hbase : 8 ≤ base.toNat) : Fine m (.silent (m.getUint base)) :=
  ⟨⟨h, DigitsFit.start hbase m (m.ap 0) m.flag⟩,
    rank_place rfl (by simp [place, hc, State.getUint])⟩

theorem getInt_fine (hc : m.control = .fmtLoop) (h : Ends m.fmt) :
    Fine m (.silent m.getInt) := by
  have hten : 8 ≤ (10 : Long T).toNat := by rw [base_ten]; decide
  unfold State.getInt
  split
  · exact ⟨⟨h, DigitsFit.start hten m _ _⟩, rank_place rfl (by simp [place, hc, State.getUint])⟩
  · exact getUint_fine hc h hten

theorem fmtSwitch_fine (hc : m.control = .fmtLoop) (h : complete true m.fmt = true) :
    Fine m (m.fmtSwitch text) := by
  unfold State.fmtSwitch
  cases hlabel : Label.of (deref m.fmt) with
  | zero =>
      have hdigit := Label.of_digit.1 (Or.inl hlabel)
      obtain ⟨ch, rest, hfmt, hrest⟩ := complete_digit h hdigit
      dsimp only
      rw [skip_cons hfmt]
      exact ⟨hrest, rank_skip hfmt rfl (by simp [place, hc])⟩
  | nonzero =>
      have hdigit := Label.of_digit.1 (Or.inr hlabel)
      exact ⟨h, rank_place rfl (by simp [place, hc, hdigit])⟩
  | d => exact getInt_fine hc (complete_ends h (by simp [hlabel]) (by simp [hlabel]))
  | o =>
      exact getUint_fine hc (complete_ends h (by simp [hlabel]) (by simp [hlabel]))
        (Nat.le_of_eq base_eight.symm)
  | x =>
      exact getUint_fine hc (complete_ends h (by simp [hlabel]) (by simp [hlabel]))
        (by rw [base_sixteen]; decide)
  | u =>
      exact getUint_fine hc (complete_ends h (by simp [hlabel]) (by simp [hlabel]))
        (by rw [base_ten]; decide)
  | c => exact complete_ends h (by simp [hlabel]) (by simp [hlabel])
  | s =>
      exact ⟨complete_ends h (by simp [hlabel]) (by simp [hlabel]),
        rank_place rfl (by simp [place, hc])⟩
  | percent => exact complete_ends h (by simp [hlabel]) (by simp [hlabel])
  | other => exact complete_ends h (by simp [hlabel]) (by simp [hlabel])

theorem widthLoop_fine (hc : m.control = .widthLoop) (h : complete true m.fmt = true) :
    Fine m (State.step text m) := by
  unfold State.step
  rw [hc]
  dsimp only
  split
  case isTrue hdigit =>
    obtain ⟨ch, rest, hfmt, hrest⟩ := complete_digit h hdigit
    rw [skip_cons hfmt]
    exact ⟨hrest, rank_skip hfmt rfl (Nat.lt_of_le_of_lt (place_le _) (by omega))⟩
  case isFalse hdigit => exact ⟨h, rank_place rfl (by simp [place, hc, hdigit])⟩

theorem flag_zeropad (flag : BitVec 32) : flag ||| FLAG_ZEROPAD ≠ 0 := by
  intro h
  have hbit := congrArg (fun b : BitVec 32 => b.getLsbD 1) h
  rw [BitVec.getLsbD_or] at hbit
  simp [FLAG_ZEROPAD] at hbit

theorem emitSign_fine {control : Control} (h : Ends m.fmt) (hpos : m.bufPos ≤ BUF_SIZE)
    (hcontrol : control = .printDigits ∨ control = .zeroPad) {m₀ : State T} (hfmt : m.fmt = m₀.fmt)
    (hplace : 9 < place m₀) : Fine m₀ (m.emitSign control) := by
  unfold State.emitSign
  cases hcontrol with
  | inl hcontrol =>
      subst hcontrol
      split
      · exact ⟨h, hpos⟩
      · exact ⟨⟨h, hpos⟩, rank_place hfmt hplace⟩
  | inr hcontrol =>
      subst hcontrol
      split
      · exact ⟨h, hpos⟩
      · exact ⟨⟨h, hpos⟩, rank_place hfmt hplace⟩

theorem byWidth_fine (h : Ends m.fmt) (hpos : m.bufPos < BUF_SIZE) {m₀ : State T}
    (hfmt : m.fmt = m₀.fmt) (hplace : 9 < place m₀) : Fine m₀ m.byWidth := by
  have hpos' : m.bufPos ≤ BUF_SIZE := Nat.le_of_lt hpos
  unfold State.byWidth
  split
  · exact emitSign_fine h hpos' (Or.inl rfl) hfmt hplace
  · split
    · exact emitSign_fine h hpos' (Or.inr rfl) hfmt hplace
    · split
      · split
        · unfold State.store
          rw [if_pos hpos]
          exact ⟨⟨h, hpos⟩, rank_place hfmt hplace⟩
        · exact ⟨⟨h, hpos'⟩, rank_place hfmt hplace⟩
      · exact ⟨h, rank_place hfmt (Nat.lt_trans (by simp [place]) hplace)⟩

theorem DigitsFit.room (h : DigitsFit m) (huval : m.uval ≠ 0) : m.bufPos < 22 := by
  have hpos : 1 ≤ m.uval.toNat := by
    apply Nat.one_le_iff_ne_zero.2
    intro hzero
    exact huval (BitVec.eq_of_toNat_eq (by simpa using hzero))
  have hcount := h.count
  have hvalue := h.value
  by_contra hfull
  have hlast : m.bufPos = 22 := by omega
  rw [hlast] at hvalue
  omega

theorem DigitsFit.next (h : DigitsFit m) (huval : m.uval ≠ 0) {m' : State T}
    (hbase : m'.base = m.base) (hpos : m'.bufPos = m.bufPos + 1)
    (hdigit : m'.uval = m.uval / m.base) : DigitsFit m' where
  base := by
    rw [hbase]
    exact h.base
  count := by
    rw [hpos]
    exact h.room huval
  value := by
    have hdiv : m.uval.toNat / m.base.toNat * 8 ≤ m.uval.toNat :=
      Nat.le_trans (Nat.mul_le_mul_left _ h.base) (Nat.div_mul_le_self _ _)
    rw [hpos, hdigit]
    calc (m.uval / m.base).toNat * 8 ^ (m.bufPos + 1)
        = m.uval.toNat / m.base.toNat * 8 * 8 ^ m.bufPos := by
          rw [BitVec.toNat_udiv, Nat.pow_succ]
          ring
      _ ≤ m.uval.toNat * 8 ^ m.bufPos := Nat.mul_le_mul_right _ hdiv
      _ < 18446744073709551616 := h.value

theorem digitLoop_fine (hc : m.control = .digitLoop) (h : Ends m.fmt) (hfit : DigitsFit m) :
    Fine m (State.step text m) := by
  have hcount := hfit.count
  have hplace : 9 < place m := by
    simp only [place, hc]
    omega
  unfold State.step
  rw [hc]
  dsimp only
  split
  case isTrue huval =>
    have hroom := hfit.room huval
    unfold State.store
    rw [if_pos (show m.bufPos < BUF_SIZE from Nat.lt_trans hroom (by decide))]
    refine ⟨⟨h, hfit.next huval rfl rfl rfl⟩, rank_place rfl ?_⟩
    simp only [place, hc]
    omega
  case isFalse =>
    split
    · exact byWidth_fine (m := { m with buf := Function.update m.buf 0 '0'.toUInt8, bufPos := 1 })
        h (show 1 < BUF_SIZE by decide) rfl hplace
    · exact byWidth_fine h (Nat.lt_of_le_of_lt hcount (by decide)) rfl hplace

theorem printDigits_fine (hc : m.control = .printDigits) (h : Ends m.fmt)
    (hpos : m.bufPos ≤ BUF_SIZE) : Fine m (State.step text m) := by
  unfold State.step
  rw [hc]
  dsimp only
  cases hk : m.bufPos with
  | zero => exact ⟨h, rank_place rfl (by simp [place, hc])⟩
  | succ k =>
      dsimp only
      rw [hk] at hpos
      unfold State.emitBuf
      rw [if_pos (Nat.lt_of_succ_le hpos)]
      exact ⟨h, Nat.le_of_succ_le hpos⟩

theorem padLoop_fine (hc : m.control = .zeroPad ∨ m.control = .blankPad) (h : Ends m.fmt)
    (hpos : m.bufPos ≤ BUF_SIZE) (ch : UInt8) : Fine m (m.padLoop ch) := by
  have hinv : Inv { m with width := m.width - 1 } := by
    unfold Inv
    cases hc with
    | inl hc => rw [hc]; exact ⟨h, hpos⟩
    | inr hc => rw [hc]; exact ⟨h, hpos⟩
  unfold State.padLoop
  dsimp only
  split
  case isTrue hnonneg =>
    split
    case isTrue => exact hinv
    case isFalse hlt =>
      have hindex : (m.width - 1).toNat < BUF_SIZE := by
        have htop := (m.width - 1).isLt
        rw [BitVec.toInt_eq_toNat_cond] at hnonneg hlt
        split at hnonneg <;> omega
      unfold State.emitBuf
      rw [if_pos hindex]
      exact hinv
  case isFalse =>
    refine ⟨h, rank_place rfl ?_⟩
    cases hc with
    | inl hc => simp [place, hc]
    | inr hc => simp [place, hc]

theorem nextFmt_fine (hc : m.control = .nextFmt) (h : Ends m.fmt) : Fine m (State.step text m) := by
  obtain ⟨ch, rest, hfmt, hrest⟩ := h
  unfold State.step
  rw [hc]
  dsimp only
  rw [skip_cons hfmt]
  exact ⟨hrest, rank_skip hfmt rfl (by simp [place, hc])⟩

theorem printDefault_fine (hc : m.control = .printDefault) (h : Ends m.fmt) :
    Fine m (State.step text m) := by
  obtain ⟨ch, rest, hfmt, hrest⟩ := h
  unfold State.step
  rw [hc]
  dsimp only
  rw [skip_cons hfmt]
  exact hrest

theorem stringLoop_fine (hc : m.control = .copyString ∨ m.control = .padString) (h : Ends m.fmt) :
    Fine m (State.step text m) := by
  unfold State.step
  rcases hc with hc | hc
  all_goals
    rw [hc]
    dsimp only
    split
    · exact h
    · exact ⟨h, rank_place rfl (by simp [place, hc])⟩

theorem step_fine (h : Inv m) : Fine m (State.step text m) := by
  unfold Inv at h
  cases hc : m.control with
  | main => rw [hc] at h; exact main_fine hc h
  | fmtLoop =>
      rw [hc] at h
      unfold State.step
      rw [hc]
      exact fmtSwitch_fine hc h
  | widthLoop => rw [hc] at h; exact widthLoop_fine hc h
  | digitLoop => rw [hc] at h; exact digitLoop_fine hc h.1 h.2
  | printDigits => rw [hc] at h; exact printDigits_fine hc h.1 h.2
  | zeroPad =>
      rw [hc] at h
      unfold State.step
      rw [hc]
      exact padLoop_fine (Or.inl hc) h.1 h.2 '0'.toUInt8
  | blankPad =>
      rw [hc] at h
      unfold State.step
      rw [hc]
      exact padLoop_fine (Or.inr hc) h.1 h.2 ' '.toUInt8
  | copyString => rw [hc] at h; exact stringLoop_fine (Or.inl hc) h
  | padString => rw [hc] at h; exact stringLoop_fine (Or.inr hc) h
  | nextFmt => rw [hc] at h; exact nextFmt_fine hc h
  | printDefault => rw [hc] at h; exact printDefault_fine hc h
  | beyond => rw [hc] at h; exact absurd h id

theorem snprintf_lively (text : Long T → List UInt8) :
    Lively (State.step text) Inv rank where
  silent := by
    intro m m' h hstep
    have hfine : Fine m (State.step text m) := step_fine h
    rw [hstep] at hfine
    exact hfine
  emit := by
    intro m ch m' h hstep
    have hfine : Fine m (State.step text m) := step_fine h
    rw [hstep] at hfine
    exact hfine
  sound := by
    intro m h hstep
    have hfine : Fine m (State.step text m) := step_fine h
    rw [hstep] at hfine
    exact hfine

theorem start_inv {fmt : List UInt8} (h : complete false fmt = true) (ap : Nat → Long T) :
    Inv (State.start fmt ap) := h

end Aimv6.Libc
