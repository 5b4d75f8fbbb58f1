import Aimv6.Libc.SnprintfView
import Aimv6.Libc.SnprintfWidth

/-! # One format behind another

The run of a format that is followed by another is the run of the first, seen
with a longer format and more arguments, and then a run of the second. That one
starts with the flag and the width that an unknown directive has left over: only
a known one sets them back.
-/

namespace Aimv6.Libc

open Support

variable {T : Target} {m : State T} {text : Long T → List UInt8} {fmt fmt' : List UInt8}
  {ap ap' : Nat → Long T}

/-- The first `n` words of `ap`, and those of `ap'` behind them. -/
def splice (n : Nat) (ap ap' : Nat → Long T) : Nat → Long T :=
  fun i => if i < n then ap i else ap' (i - n)

def Label.takes : Label → Bool
  | .d | .o | .x | .u | .c | .s => true
  | _ => false

/-- How many words a format takes; `inside` holds behind a percent sign. -/
def words : Bool → List UInt8 → Nat
  | _, [] => 0
  | inside, ch :: fmt =>
      if inside then
        if isDigit ch then words true fmt
        else (if (Label.of ch).takes then 1 else 0) + words false fmt
      else words (decide (ch = '%'.toUInt8)) fmt

/-- The variables that outlive a turn of the loop. -/
@[ext]
structure Settings (T : Target) where
  flag : BitVec 32
  width : Long T
deriving DecidableEq

def Settings.none : Settings T := ⟨0, 0⟩

def Settings.digit (c : Settings T) (ch : UInt8) : Settings T :=
  { c with width := c.width * 10 + BitVec.ofNat _ (ch.toNat - 48) }

/-- Where in a format a character stands. -/
inductive Scan where
  | outside
  /-- behind a percent sign and flags -/
  | switch
  /-- behind the first digit of a width -/
  | width
deriving DecidableEq

def leftover : Scan → Settings T → List UInt8 → Settings T
  | _, c, [] => c
  | .outside, c, ch :: fmt => leftover (if ch = '%'.toUInt8 then .switch else .outside) c fmt
  | .switch, c, ch :: fmt =>
      match Label.of ch with
      | .zero => leftover .switch { c with flag := c.flag ||| FLAG_ZEROPAD } fmt
      | .nonzero => leftover .width (c.digit ch) fmt
      | .other => leftover .outside c fmt
      | _ => leftover .outside .none fmt
  | .width, c, ch :: fmt =>
      match Label.of ch with
      | .zero => leftover .width (c.digit ch) fmt
      | .nonzero => leftover .width (c.digit ch) fmt
      | .other => leftover .outside c fmt
      | _ => leftover .outside .none fmt

namespace State

def settings (m : State T) : Settings T := ⟨m.flag, m.width⟩

/-- The words that are still to be taken; those of the directive at `fmt` have been, except at the
switch and in front of it. -/
def words (m : State T) : Nat :=
  match m.control with
  | .main => Libc.words false m.fmt
  | .fmtLoop => Libc.words true m.fmt
  | .widthLoop => Libc.words true m.fmt
  | _ => Libc.words false m.fmt.tail

def leftover (m : State T) : Settings T :=
  match m.control with
  | .main => Libc.leftover .outside m.settings m.fmt
  | .fmtLoop => Libc.leftover .switch m.settings m.fmt
  | .widthLoop => Libc.leftover .width m.settings m.fmt
  | .printDefault => Libc.leftover .outside m.settings m.fmt.tail
  | _ => Libc.leftover .outside .none m.fmt.tail

/-- The state with `fmt` behind its format and `ap` behind its words. -/
def extend (fmt : List UInt8) (ap : Nat → Long T) (m : State T) : State T :=
  { m with fmt := m.fmt ++ fmt, ap := splice m.words m.ap ap }

end State

/-! ## The first format -/

theorem splice_rest (n : Nat) (ap ap' : Nat → Long T) :
    rest (splice (1 + n) ap ap') = splice n (rest ap) ap' := by
  funext i
  unfold rest splice
  by_cases h : i < n
  · rw [if_pos (by omega), if_pos h]
  · rw [if_neg (by omega), if_neg h]
    congr 1
    omega

theorem splice_first (n : Nat) (ap ap' : Nat → Long T) : splice (1 + n) ap ap' 0 = ap 0 :=
  if_pos (by omega)

theorem Ends.cons (h : Ends fmt) : ∃ ch rest, fmt = ch :: rest := by
  obtain ⟨ch, rest, hfmt, -⟩ := h
  exact ⟨ch, rest, hfmt⟩

/-- Something stands at `fmt` wherever the scan is in the body of the loop. -/
theorem Inv.cons (h : Inv m) (hc : m.control ≠ .main) : ∃ ch rest, m.fmt = ch :: rest := by
  have hinside : complete true m.fmt = true → ∃ ch rest, m.fmt = ch :: rest := by
    intro h
    obtain ⟨ch, rest, hfmt, -⟩ := complete_inside h
    exact ⟨ch, rest, hfmt⟩
  unfold Inv at h
  cases hcontrol : m.control with
  | main => exact absurd hcontrol hc
  | fmtLoop => rw [hcontrol] at h; exact hinside h
  | widthLoop => rw [hcontrol] at h; exact hinside h
  | digitLoop => rw [hcontrol] at h; exact h.1.cons
  | printDigits => rw [hcontrol] at h; exact h.1.cons
  | zeroPad => rw [hcontrol] at h; exact h.1.cons
  | blankPad => rw [hcontrol] at h; exact h.1.cons
  | copyString => rw [hcontrol] at h; exact Ends.cons h
  | padString => rw [hcontrol] at h; exact Ends.cons h
  | nextFmt => rw [hcontrol] at h; exact Ends.cons h
  | printDefault => rw [hcontrol] at h; exact Ends.cons h
  | beyond => rw [hcontrol] at h; exact absurd h id

theorem words_outside (ch : UInt8) (fmt : List UInt8) :
    words false (ch :: fmt) = words (decide (ch = '%'.toUInt8)) fmt := rfl

theorem words_digit {ch : UInt8} (h : isDigit ch = true) :
    words true (ch :: fmt) = words true fmt := by
  rw [words, if_pos rfl, if_pos h]

theorem words_directive {ch : UInt8} (h : isDigit ch = false) :
    words true (ch :: fmt) = (if (Label.of ch).takes then 1 else 0) + words false fmt := by
  rw [words, if_pos rfl, if_neg (by rw [h]; simp)]

theorem isDigit_of_label {ch : UInt8} {l : Label} (h : Label.of ch = l) :
    isDigit ch = decide (l = .zero ∨ l = .nonzero) := by
  rw [Bool.eq_iff_iff, ← Label.of_digit, h, decide_eq_true_eq]

variable {ch : UInt8}

theorem fmtSwitch_extend (hc : m.control = .fmtLoop) (hfmt : m.fmt = ch :: fmt) :
    (m.extend fmt' ap').fmtSwitch text = (m.fmtSwitch text).map (State.extend fmt' ap') := by
  obtain ⟨control, _, ap, uval, width, base, flag, len, bufPos, buf, s⟩ := m
  subst hc hfmt
  have hderef : deref (ch :: fmt ++ fmt') = ch := rfl
  have hderef' : deref (ch :: fmt) = ch := rfl
  have htakes : (Label.of ch).takes = true → words true (ch :: fmt) = 1 + words false fmt := by
    intro h
    have hdigit : isDigit ch = false := by
      rw [isDigit_of_label rfl]
      cases hlabel : Label.of ch <;> rw [hlabel] at h <;> first | rfl | exact absurd h (by decide)
    rw [words_directive hdigit, if_pos h]
  have hrest : (fun i => splice (1 + words false fmt) ap ap' (i + 1)) =
      splice (words false fmt) (fun i => ap (i + 1)) ap' := splice_rest _ ap ap'
  have hfirst := splice_first (words false fmt) ap ap'
  unfold State.fmtSwitch State.extend State.words
  dsimp only
  rw [hderef, hderef']
  cases hlabel : Label.of ch with
  | zero =>
      rw [words_digit (by rw [isDigit_of_label hlabel]; rfl)]
      rfl
  | nonzero => rfl
  | d =>
      rw [htakes (by rw [hlabel]; rfl)]
      unfold State.getInt State.getUint
      simp only [hfirst, hrest]
      split
      · rfl
      · rfl
  | o =>
      rw [htakes (by rw [hlabel]; rfl)]
      unfold State.getUint
      dsimp only
      rw [hfirst, hrest]
      rfl
  | x =>
      rw [htakes (by rw [hlabel]; rfl)]
      unfold State.getUint
      dsimp only
      rw [hfirst, hrest]
      rfl
  | u =>
      rw [htakes (by rw [hlabel]; rfl)]
      unfold State.getUint
      dsimp only
      rw [hfirst, hrest]
      rfl
  | c =>
      rw [htakes (by rw [hlabel]; rfl)]
      dsimp only
      rw [hfirst, hrest]
      rfl
  | s =>
      rw [htakes (by rw [hlabel]; rfl)]
      simp only [hfirst, hrest]
      rfl
  | percent =>
      rw [words_directive (by rw [isDigit_of_label hlabel]; rfl), hlabel]
      have hnone : (if Label.takes .percent = true then 1 else 0) + words false fmt = words false fmt :=
        Nat.zero_add _
      rw [hnone]
      rfl
  | other =>
      rw [words_directive (by rw [isDigit_of_label hlabel]; rfl), hlabel]
      have hnone : (if Label.takes .other = true then 1 else 0) + words false fmt = words false fmt :=
        Nat.zero_add _
      rw [hnone]
      rfl

theorem step_extend (h : Inv m) (hstop : State.step text m ≠ .stop) :
    State.step text (m.extend fmt' ap') = (State.step text m).map (State.extend fmt' ap') := by
  by_cases hmain : m.control = .main
  · obtain ⟨control, fmt, ap, uval, width, base, flag, len, bufPos, buf, s⟩ := m
    subst hmain
    cases fmt with
    | nil => exact absurd rfl hstop
    | cons ch fmt =>
        have hzero : ch ≠ 0 := fun hzero => hstop (if_pos hzero)
        unfold State.step State.extend State.words
        dsimp only
        rw [show deref (ch :: fmt ++ fmt') = ch from rfl, show deref (ch :: fmt) = ch from rfl,
          if_neg hzero, if_neg hzero, words_outside]
        by_cases hpercent : ch = '%'.toUInt8
        · rw [if_pos hpercent, if_pos hpercent, decide_eq_true hpercent]
          rfl
        · rw [if_neg hpercent, if_neg hpercent, decide_eq_false hpercent]
          rfl
  · obtain ⟨ch, fmt, hfmt⟩ := h.cons hmain
    obtain ⟨control, _, ap, uval, width, base, flag, len, bufPos, buf, s⟩ := m
    subst hfmt
    cases control with
    | main => exact absurd rfl hmain
    | fmtLoop =>
        unfold State.step
        exact fmtSwitch_extend rfl rfl
    | widthLoop =>
        unfold State.step State.extend State.words
        dsimp only
        rw [show deref (ch :: fmt ++ fmt') = ch from rfl, show deref (ch :: fmt) = ch from rfl]
        by_cases hdigit : isDigit ch = true
        · rw [if_pos hdigit, if_pos hdigit, words_digit hdigit]
          rfl
        · rw [if_neg hdigit, if_neg hdigit]
          rfl
    -- in the rest of the body the format is not looked at
    | digitLoop =>
        unfold State.step State.byWidth State.emitSign State.store
        simp only [State.extend, Action.map_ite]
        rfl
    | printDigits =>
        unfold State.step State.emitBuf
        cases bufPos with
        | zero => rfl
        | succ k =>
            simp only [State.extend, Action.map_ite]
            rfl
    | zeroPad =>
        unfold State.step State.padLoop State.emitBuf
        simp only [State.extend, Action.map_ite]
        rfl
    | blankPad =>
        unfold State.step State.padLoop State.emitBuf
        simp only [State.extend, Action.map_ite]
        rfl
    | copyString =>
        unfold State.step
        simp only [State.extend, Action.map_ite]
        rfl
    | padString =>
        unfold State.step
        simp only [State.extend, Action.map_ite]
        rfl
    | nextFmt => rfl
    | printDefault => rfl
    | beyond => rfl

def Goes (m m' : State T) : Prop := m'.leftover = m.leftover ∧ m'.fmt <:+ m.fmt

theorem byWidth_goes {d : State T} (hfmt : d.fmt = m.fmt)
    (hleft : m.leftover = leftover .outside .none m.fmt.tail) : d.byWidth.Leads (Goes m) := by
  have hgoes : ∀ {m' : State T}, m'.fmt = d.fmt → m'.leftover = leftover .outside .none m'.fmt.tail →
      Goes m m' := by
    intro m' hfmt' hleft'
    have hsame := hfmt'.trans hfmt
    rw [hsame] at hleft'
    exact ⟨hleft'.trans hleft.symm, hsame ▸ List.suffix_refl _⟩
  unfold State.byWidth State.emitSign
  apply Action.Leads.ite
  · exact fun _ => Action.Leads.ite (fun _ => hgoes rfl rfl) (fun _ => hgoes rfl rfl)
  · intro _
    apply Action.Leads.ite
    · exact fun _ => Action.Leads.ite (fun _ => hgoes rfl rfl) (fun _ => hgoes rfl rfl)
    · intro _
      apply Action.Leads.ite
      · intro _
        apply Action.Leads.ite
        · exact fun _ => Action.Leads.ite (fun _ => hgoes rfl rfl) (fun _ => trivial)
        · exact fun _ => hgoes rfl rfl
      · exact fun _ => hgoes rfl rfl

theorem main_goes (hc : m.control = .main) : (State.step text m).Leads (Goes m) := by
  obtain ⟨control, fmt, ap, uval, width, base, flag, len, bufPos, buf, s⟩ := m
  subst hc
  cases fmt with
  | nil => exact trivial
  | cons ch fmt =>
      unfold State.step
      dsimp only
      rw [show deref (ch :: fmt) = ch from rfl]
      split
      case isTrue => exact trivial
      case isFalse =>
        split
        case isTrue hpercent =>
          refine ⟨?_, List.suffix_cons ch fmt⟩
          show leftover .switch ⟨flag, width⟩ fmt = leftover .outside ⟨flag, width⟩ (ch :: fmt)
          rw [leftover, if_pos hpercent]
        case isFalse hpercent =>
          refine ⟨?_, List.suffix_refl _⟩
          show leftover .outside ⟨flag, width⟩ fmt = leftover .outside ⟨flag, width⟩ (ch :: fmt)
          rw [leftover, if_neg hpercent]

theorem fmtLoop_goes {ch : UInt8} {fmt : List UInt8} (hc : m.control = .fmtLoop)
    (hfmt : m.fmt = ch :: fmt) : (State.step text m).Leads (Goes m) := by
  obtain ⟨control, _, ap, uval, width, base, flag, len, bufPos, buf, s⟩ := m
  subst hc hfmt
  have hswitch : ∀ {m' : State T}, m'.fmt = ch :: fmt →
      m'.leftover = leftover .switch ⟨flag, width⟩ (ch :: fmt) →
      Goes ⟨.fmtLoop, ch :: fmt, ap, uval, width, base, flag, len, bufPos, buf, s⟩ m' := by
    intro m' hfmt hleft
    exact ⟨hleft, hfmt ▸ List.suffix_refl _⟩
  unfold State.step State.fmtSwitch
  dsimp only
  rw [show deref (ch :: fmt) = ch from rfl]
  cases hlabel : Label.of ch with
  | zero =>
      refine ⟨?_, List.suffix_cons ch fmt⟩
      show leftover .switch _ fmt = leftover .switch ⟨flag, width⟩ (ch :: fmt)
      rw [leftover, hlabel]
      rfl
  | nonzero =>
      apply hswitch rfl
      show leftover .width ⟨flag, width⟩ (ch :: fmt) = leftover .switch ⟨flag, width⟩ (ch :: fmt)
      rw [leftover, leftover, hlabel]
  | d =>
      unfold State.getInt
      show Goes _ _
      split
      · exact hswitch rfl (by rw [leftover, hlabel]; rfl)
      · exact hswitch rfl (by rw [leftover, hlabel]; rfl)
  | o => exact hswitch rfl (by rw [leftover, hlabel]; rfl)
  | x => exact hswitch rfl (by rw [leftover, hlabel]; rfl)
  | u => exact hswitch rfl (by rw [leftover, hlabel]; rfl)
  | c => exact hswitch rfl (by rw [leftover, hlabel]; rfl)
  | s => exact hswitch rfl (by rw [leftover, hlabel]; rfl)
  | percent => exact hswitch rfl (by rw [leftover, hlabel]; rfl)
  | other => exact hswitch rfl (by rw [leftover, hlabel]; rfl)

theorem widthLoop_goes {ch : UInt8} {fmt : List UInt8} (hc : m.control = .widthLoop)
    (hfmt : m.fmt = ch :: fmt) : (State.step text m).Leads (Goes m) := by
  obtain ⟨control, _, ap, uval, width, base, flag, len, bufPos, buf, s⟩ := m
  subst hc hfmt
  unfold State.step
  dsimp only
  rw [show deref (ch :: fmt) = ch from rfl]
  apply Action.Leads.ite
  · intro hdigit
    refine ⟨?_, List.suffix_cons ch fmt⟩
    show leftover .width _ fmt = leftover .width ⟨flag, width⟩ (ch :: fmt)
    rw [leftover]
    rcases Label.of_digit.2 hdigit with hlabel | hlabel
    · rw [hlabel]
      rfl
    · rw [hlabel]
      rfl
  · intro hdigit
    refine ⟨?_, List.suffix_refl _⟩
    show leftover .switch ⟨flag, width⟩ (ch :: fmt) = leftover .width ⟨flag, width⟩ (ch :: fmt)
    have hlabel := not_or.1 (mt Label.of_digit.1 hdigit)
    rw [leftover, leftover]
    split
    · exact absurd ‹_› hlabel.1
    · exact absurd ‹_› hlabel.2
    · rfl
    · rfl

theorem padLoop_goes (hc : m.control = .zeroPad ∨ m.control = .blankPad) (ch : UInt8) :
    (m.padLoop ch).Leads (Goes m) := by
  obtain ⟨control, fmt, ap, uval, width, base, flag, len, bufPos, buf, s⟩ := m
  have hsame : fmt <:+ fmt := List.suffix_refl _
  unfold State.padLoop State.emitBuf
  rcases hc with rfl | rfl
  all_goals
    apply Action.Leads.ite
    · intro _
      apply Action.Leads.ite
      · exact fun _ => ⟨rfl, hsame⟩
      · exact fun _ => Action.Leads.ite (fun _ => ⟨rfl, hsame⟩) (fun _ => trivial)
    · exact fun _ => ⟨rfl, hsame⟩

theorem step_goes (h : Inv m) : (State.step text m).Leads (Goes m) := by
  have hsame : ∀ {m : State T}, m.fmt <:+ m.fmt := List.suffix_refl _
  by_cases hmain : m.control = .main
  · exact main_goes hmain
  · obtain ⟨ch, fmt, hfmt⟩ := h.cons hmain
    obtain ⟨control, _, ap, uval, width, base, flag, len, bufPos, buf, s⟩ := m
    cases control with
    | main => exact absurd rfl hmain
    | fmtLoop => exact fmtLoop_goes rfl hfmt
    | widthLoop => exact widthLoop_goes rfl hfmt
    -- in the rest of the body nothing of this is touched
    | digitLoop =>
        unfold State.step
        apply Action.Leads.ite
        · exact fun _ => Action.Leads.ite (fun _ => ⟨rfl, hsame⟩) (fun _ => trivial)
        · intro _
          apply Action.Leads.ite
          · exact fun _ => byWidth_goes rfl rfl
          · exact fun _ => byWidth_goes rfl rfl
    | printDigits =>
        unfold State.step State.emitBuf
        cases bufPos with
        | zero => exact ⟨rfl, hsame⟩
        | succ k => exact Action.Leads.ite (fun _ => ⟨rfl, hsame⟩) (fun _ => trivial)
    | zeroPad => exact padLoop_goes (Or.inl rfl) _
    | blankPad => exact padLoop_goes (Or.inr rfl) _
    | copyString => exact Action.Leads.ite (fun _ => ⟨rfl, hsame⟩) (fun _ => ⟨rfl, hsame⟩)
    | padString => exact Action.Leads.ite (fun _ => ⟨rfl, hsame⟩) (fun _ => ⟨rfl, hsame⟩)
    | nextFmt =>
        subst hfmt
        exact ⟨rfl, List.suffix_cons ch fmt⟩
    | printDefault =>
        subst hfmt
        exact ⟨rfl, List.suffix_cons ch fmt⟩
    | beyond => exact trivial

theorem step_eq_stop (h : State.step text m = .stop) : m.control = .main ∧ deref m.fmt = 0 := by
  have hsign : ∀ (d : State T) c, d.emitSign c ≠ .stop := by
    intro d c
    unfold State.emitSign
    split <;> simp
  have hstore : ∀ (d : State T) ch c, d.store ch c ≠ .stop := by
    intro d ch c
    unfold State.store
    split <;> simp
  have hbuf : ∀ (d : State T) i m', d.emitBuf i m' ≠ .stop := by
    intro d i m'
    unfold State.emitBuf
    split <;> simp
  have hwidth : ∀ d : State T, d.byWidth ≠ .stop := by
    intro d
    unfold State.byWidth
    split
    · exact hsign _ _
    · split
      · exact hsign _ _
      · split
        · split
          · exact hstore _ _ _
          · simp
        · simp
  have hpad : ∀ (d : State T) ch, d.padLoop ch ≠ .stop := by
    intro d ch
    unfold State.padLoop
    dsimp only
    split
    · split
      · simp
      · exact hbuf _ _ _
    · simp
  unfold State.step at h
  cases hc : m.control with
  | main =>
      rw [hc] at h
      refine ⟨rfl, ?_⟩
      by_contra hne
      dsimp only at h
      rw [if_neg hne] at h
      split at h <;> exact absurd h (by simp)
  | fmtLoop =>
      rw [hc] at h
      dsimp only at h
      unfold State.fmtSwitch at h
      split at h <;> exact absurd h (by simp)
  | widthLoop => rw [hc] at h; dsimp only at h; split at h <;> exact absurd h (by simp)
  | digitLoop =>
      rw [hc] at h
      dsimp only at h
      split at h
      · exact absurd h (hstore _ _ _)
      · split at h
        · exact absurd h (hwidth _)
        · exact absurd h (hwidth _)
  | printDigits =>
      rw [hc] at h
      dsimp only at h
      split at h
      · exact absurd h (by simp)
      · exact absurd h (hbuf _ _ _)
  | zeroPad => rw [hc] at h; exact absurd h (hpad _ _)
  | blankPad => rw [hc] at h; exact absurd h (hpad _ _)
  | copyString => rw [hc] at h; dsimp only at h; split at h <;> exact absurd h (by simp)
  | padString => rw [hc] at h; dsimp only at h; split at h <;> exact absurd h (by simp)
  | nextFmt => rw [hc] at h; exact absurd h (by simp)
  | printDefault => rw [hc] at h; exact absurd h (by simp)
  | beyond => rw [hc] at h; exact absurd h (by simp)

/-- In front of a format with what an earlier one has left over. -/
structure Behind (m : State T) (fmt : List UInt8) (ap : Nat → Long T) (c : Settings T) : Prop where
  control : m.control = .main
  fmt : m.fmt = fmt
  ap : m.ap = ap
  settings : m.settings = c

theorem start_extend (fmt' : List UInt8) (ap' : Nat → Long T) (hfmt : complete false fmt = true)
    {out : List UInt8} (h : Emits (State.step text) (State.start fmt ap) out m) :
    Emits (State.step text) (State.start (fmt ++ fmt') (splice (words false fmt) ap ap')) out
      (m.extend fmt' ap') ∧ Inv m ∧ m.leftover = leftover .outside .none fmt ∧ m.fmt <:+ fmt := by
  have hkeep : ∀ m : State T, (Inv m ∧ m.leftover = leftover .outside .none fmt ∧ m.fmt <:+ fmt) →
      (State.step text m).Leads fun m' =>
        Inv m' ∧ m'.leftover = leftover .outside .none fmt ∧ m'.fmt <:+ fmt := by
    rintro m ⟨hinv, hleft, hsuffix⟩
    have hfine : Fine m (State.step text m) := step_fine hinv
    have hgoes : (State.step text m).Leads (Goes m) := step_goes hinv
    cases hstep : State.step text m with
    | silent m' =>
        rw [hstep] at hfine hgoes
        exact ⟨hfine.1, hgoes.1.trans hleft, hgoes.2.trans hsuffix⟩
    | emit ch m' =>
        rw [hstep] at hfine hgoes
        exact ⟨hfine, hgoes.1.trans hleft, hgoes.2.trans hsuffix⟩
    | stop => trivial
    | fault => trivial
  have hstart : Inv (State.start fmt ap) ∧
      (State.start fmt ap).leftover = leftover .outside .none fmt ∧
      (State.start fmt ap).fmt <:+ fmt := ⟨start_inv hfmt ap, rfl, List.suffix_refl _⟩
  exact ⟨h.map hkeep (fun m hm hstop => step_extend hm.1 hstop) hstart, h.keeps hkeep hstart⟩

theorem stops_at (hfmt : complete false fmt = true) (hnul : 0 ∉ fmt) {out : List UInt8}
    (hrun : Emits (State.step text) (State.start fmt ap) out m) (hstop : State.step text m = .stop) :
    m.control = .main ∧ m.fmt = [] ∧ m.settings = leftover .outside .none fmt := by
  obtain ⟨-, -, hleft, hsuffix⟩ := start_extend [] ap hfmt hrun
  obtain ⟨hc, hend⟩ := step_eq_stop hstop
  have hnil : m.fmt = [] := by
    cases hrest : m.fmt with
    | nil => rfl
    | cons ch rest =>
        rw [hrest] at hend hsuffix
        have hzero : ch = 0 := hend
        exact absurd (hsuffix.mem List.mem_cons_self) (hzero ▸ hnul)
  unfold State.leftover at hleft
  rw [hc, hnil] at hleft
  exact ⟨hc, hnil, hleft⟩

theorem stops_behind (fmt' : List UInt8) (ap' : Nat → Long T) (hfmt : complete false fmt = true)
    (hnul : 0 ∉ fmt) {out : List UInt8} (h : Stops (State.step text) (State.start fmt ap) out) :
    ∃ m, Emits (State.step text)
      (State.start (fmt ++ fmt') (splice (words false fmt) ap ap')) out m ∧
      Behind m fmt' ap' (leftover .outside .none fmt) := by
  obtain ⟨m, hrun, hstop⟩ := h
  obtain ⟨hc, hnil, hleft⟩ := stops_at hfmt hnul hrun hstop
  refine ⟨m.extend fmt' ap', (start_extend fmt' ap' hfmt hrun).1, hc, ?_, ?_, hleft⟩
  · show m.fmt ++ fmt' = fmt'
    rw [hnil, List.nil_append]
  · show splice m.words m.ap ap' = ap'
    unfold State.words
    rw [hc, hnil]
    rfl

/-! ## The second format -/

theorem none_positive : (Settings.none : Settings T).flag &&& FLAG_NEG = 0 := by
  show (0 : BitVec 32) &&& FLAG_NEG = 0
  decide

theorem leftover_positive {scan : Scan} {c : Settings T} (h : c.flag &&& FLAG_NEG = 0) :
    (leftover scan c fmt).flag &&& FLAG_NEG = 0 := by
  induction fmt generalizing scan c with
  | nil => cases scan <;> exact h
  | cons ch fmt ih =>
      cases scan with
      | outside => exact ih h
      | switch =>
          rw [leftover]
          split
          · apply ih
            rw [BitVec.and_or_distrib_right, h]
            decide
          · exact ih h
          · exact ih h
          · exact ih none_positive
      | width =>
          rw [leftover]
          split
          · exact ih h
          · exact ih h
          · exact ih h
          · exact ih none_positive

theorem Behind.view_eq {c : Settings T} (h : Behind m fmt ap c) (hflag : c.flag &&& FLAG_NEG = 0)
    (hwidth : c.width = 0) : (State.start fmt ap).view = m.view := by
  obtain ⟨control, _, _, uval, width, base, flag, len, bufPos, buf, s⟩ := m
  obtain ⟨rfl, rfl, rfl, rfl⟩ := h
  have hzero : width = 0 := hwidth
  rw [hzero]
  exact view_scan (Or.inl rfl) hflag.symm

/-- With an unlimited buffer the output of two formats in one is the output of the first and then
that of the second; an output without end has nothing behind it. -/
structure Concatenates (text : Long T → List UInt8) (fmt : List UInt8) (ap : Nat → Long T)
    (fmt' : List UInt8) (ap' : Nat → Long T) : Prop where
  ends : ∀ out, Stops (State.step text) (State.start fmt ap) out → ∀ n out',
    FirstBytes (State.step text) (State.start fmt' ap') n out' → FirstBytes (State.step text)
      (State.start (fmt ++ fmt') (splice (words false fmt) ap ap')) (out.length + n) (out ++ out')
  endless : (∀ out, ¬Stops (State.step text) (State.start fmt ap) out) → ∀ n out,
    FirstBytes (State.step text) (State.start fmt ap) n out → FirstBytes (State.step text)
      (State.start (fmt ++ fmt') (splice (words false fmt) ap ap')) n out

theorem concatenates (hfmt : complete false fmt = true) (hnul : 0 ∉ fmt)
    (hwidth : (∃ out, Stops (State.step text) (State.start fmt ap) out) →
      (leftover (T := T) .outside .none fmt).width = 0) : Concatenates text fmt ap fmt' ap' := by
  constructor
  case ends =>
    intro out hstop n out' hfirst
    obtain ⟨m, hrun, hbehind⟩ := stops_behind fmt' ap' hfmt hnul hstop
    have hview := hbehind.view_eq (leftover_positive none_positive) (hwidth ⟨out, hstop⟩)
    exact hrun.firstBytes (hfirst.of_view step_view hview)
  case endless =>
    intro hnone n out hfirst
    cases hfirst with
    | inl hfirst =>
        obtain ⟨hlen, m, hrun⟩ := hfirst
        exact Or.inl ⟨hlen, _, (start_extend fmt' ap' hfmt hrun).1⟩
    | inr hfirst => exact absurd hfirst.2 (hnone out)

theorem Behind.stops (text : Long T → List UInt8) {c : Settings T}
    (h : Behind m ['%'.toUInt8, 'u'.toUInt8] ap c) (hflag : c.flag &&& FLAG_NEG = 0) :
    Stops (State.step text) m (fieldText c.width [] (numeral 10 (ap 0).toNat)) := by
  have hsettings := Settings.ext_iff.1 h.settings
  have hswitch : AtSwitch { m with control := .fmtLoop, fmt := ['u'.toUInt8] } ['u'.toUInt8] ap c.width :=
    ⟨rfl, rfl, h.ap, hsettings.2, by rw [show m.flag = c.flag from hsettings.1]; exact hflag⟩
  have hfield : ∃ m', Emits (State.step text) _ _ m' ∧ AtMain m' _ _ := unsigned_emits .u hswitch
  obtain ⟨m', hprint, hmain⟩ := hfield
  exact ⟨m', (percent_emits h.control h.fmt).trans hprint, hmain.stops⟩

theorem not_concatenates {out : List UInt8} {v : Long T} (hfmt : complete false fmt = true)
    (hnul : 0 ∉ fmt) (hstop : Stops (State.step text) (State.start fmt ap) out)
    (hv : fieldText (leftover (T := T) .outside .none fmt).width [] (numeral 10 v.toNat) ≠
      numeral 10 v.toNat) :
    ¬Concatenates text fmt ap ['%'.toUInt8, 'u'.toUInt8] fun _ => v := by
  intro h
  have hplain : Stops (State.step text) (State.start ['%'.toUInt8, 'u'.toUInt8] fun _ => v)
      (numeral 10 v.toNat) := by
    have hstart : Behind (State.start ['%'.toUInt8, 'u'.toUInt8] fun _ => v) _ _ Settings.none :=
      ⟨rfl, rfl, rfl, rfl⟩
    have hprint := hstart.stops text none_positive
    rwa [show (Settings.none : Settings T).width = 0 from rfl, fieldText_zero, List.nil_append] at hprint
  have hboth := h.ends out hstop _ _ (Or.inr ⟨Nat.lt_succ_self _, hplain⟩)
  obtain ⟨m, hrun, hbehind⟩ := stops_behind ['%'.toUInt8, 'u'.toUInt8] (fun _ => v) hfmt hnul hstop
  obtain ⟨m', hrun', hend⟩ := hbehind.stops text (leftover_positive none_positive)
  have hactual : Stops (State.step text) _ (out ++ fieldText _ [] (numeral 10 v.toNat)) :=
    ⟨m', hrun.trans hrun', hend⟩
  have hexpected : Stops (State.step text) (State.start (fmt ++ ['%'.toUInt8, 'u'.toUInt8])
      (splice (words false fmt) ap fun _ => v)) (out ++ numeral 10 v.toNat) := by
    cases hboth with
    | inl hlong =>
        have hlen := hlong.1
        rw [List.length_append] at hlen
        omega
    | inr hshort => exact hshort.2
  exact hv (List.append_cancel_left (hactual.unique hexpected))

/-- For each width there is a number that does not come out the same. -/
theorem exists_fieldText_ne {width : Long T} (h : width ≠ 0) :
    ∃ v : Long T, fieldText width [] (numeral 10 v.toNat) ≠ numeral 10 v.toNat := by
  have hlen : ∀ v : Long T, fieldText width [] (numeral 10 v.toNat) = numeral 10 v.toNat →
      (numeral 10 v.toNat).length = width.toNat := by
    intro v hsame
    unfold fieldText at hsame
    rw [if_neg h] at hsame
    split at hsame
    · have hcount := congrArg List.length hsame
      rw [List.nil_append, lastDigits_length] at hcount
      exact hcount.symm
    · exact absurd hsame.symm (numeral_ne_nil (by decide) _)
  have hone : (numeral 10 (0 : Long T).toNat).length = 1 := by
    rw [show (0 : Long T).toNat = 0 by cases T <;> rfl]
    rfl
  have htwo : (numeral 10 (10 : Long T).toNat).length = 2 := by
    rw [base_ten]
    unfold numeral digitText
    norm_num
  by_cases hzero : fieldText width [] (numeral 10 (0 : Long T).toNat) = numeral 10 (0 : Long T).toNat
  · refine ⟨10, fun hten => ?_⟩
    have h₁ := hlen 0 hzero
    have h₂ := hlen 10 hten
    omega
  · exact ⟨0, hzero⟩

/-- What comes behind a format is printed as if it came first exactly where the format leaves no width
over, and it begins without a flag and a width exactly where none is left over; or else the format
does not end on its arguments. -/
theorem directives_independent_iff (text : Long T → List UInt8) (ap : Nat → Long T)
    (hfmt : complete false fmt = true) (hnul : 0 ∉ fmt) :
    ((∀ fmt' ap', Concatenates text fmt ap fmt' ap') ↔
      ((∃ out, Stops (State.step text) (State.start fmt ap) out) →
        (leftover (T := T) .outside .none fmt).width = 0)) ∧
    ((∀ out m, Emits (State.step text) (State.start fmt ap) out m → State.step text m = .stop →
        m.flag = 0 ∧ m.width = 0) ↔
      ((∃ out, Stops (State.step text) (State.start fmt ap) out) →
        leftover (T := T) .outside .none fmt = .none)) := by
  constructor
  · constructor
    · rintro hconcat ⟨out, hstop⟩
      by_contra hwidth
      obtain ⟨v, hv⟩ := exists_fieldText_ne hwidth
      exact not_concatenates hfmt hnul hstop hv (hconcat _ _)
    · exact fun hwidth fmt' ap' => concatenates hfmt hnul hwidth
  · constructor
    · rintro hclean ⟨out, m, hrun, hstop⟩
      have hzero := hclean out m hrun hstop
      rw [← (stops_at hfmt hnul hrun hstop).2.2]
      exact Settings.ext hzero.1 hzero.2
    · intro hnone out m hrun hstop
      have hsame := (stops_at hfmt hnul hrun hstop).2.2.trans (hnone ⟨out, m, hrun, hstop⟩)
      exact Settings.ext_iff.1 hsame

/-- The format `"%d,"`. -/
theorem directives_independent_iff_sample :
    complete false ("%d,".toList.map Char.toUInt8) = true ∧ 0 ∉ "%d,".toList.map Char.toUInt8 ∧
    ((∀ fmt' ap', Concatenates (T := .armv7a) (fun _ => []) ("%d,".toList.map Char.toUInt8)
        (fun _ => 7) fmt' ap') ↔
      ((∃ out, Stops (State.step fun _ => []) (State.start ("%d,".toList.map Char.toUInt8)
          fun _ => (7 : Long .armv7a)) out) →
        (leftover (T := .armv7a) .outside .none ("%d,".toList.map Char.toUInt8)).width = 0)) := by
  have hfmt : complete false ("%d,".toList.map Char.toUInt8) = true := by decide
  have hnul : 0 ∉ "%d,".toList.map Char.toUInt8 := by decide
  exact ⟨hfmt, hnul, (directives_independent_iff (T := .armv7a) (fun _ => []) (fun _ => 7) hfmt hnul).1⟩

/-- `"%5z"` leaves its width to the `"%u"` that follows. -/
theorem directives_influence : ¬∀ (T : Target) (text : Long T → List UInt8) (fmt : List UInt8)
    (ap : Nat → Long T) (fmt' : List UInt8) (ap' : Nat → Long T),
    complete false fmt = true → 0 ∉ fmt → Concatenates text fmt ap fmt' ap' := by
  intro h
  have hstop : Stops (State.step fun _ => []) (State.start ("%5z".toList.map Char.toUInt8)
      fun _ => (0 : Long .armv7a)) ("%z".toList.map Char.toUInt8) :=
    ⟨_, Emits.silent rfl (Emits.silent rfl (Emits.silent rfl (Emits.silent rfl (Emits.emit rfl
      (Emits.emit rfl (Emits.refl _)))))), rfl⟩
  have hwidth : (leftover (T := .armv7a) .outside .none ("%5z".toList.map Char.toUInt8)).width =
      BitVec.ofNat _ 5 := by decide
  refine not_concatenates (v := (7 : Long .armv7a)) (by decide) (by decide) hstop ?_
    (h .armv7a _ _ _ _ _ (by decide) (by decide))
  intro hsame
  rw [hwidth, fieldText_small (by decide) (by decide)] at hsame
  have hlen := congrArg List.length hsame
  rw [List.nil_append, lastDigits_length] at hlen
  have hone : (numeral 10 (7 : Long .armv7a).toNat).length = 1 := by
    rw [show (7 : Long .armv7a).toNat = 7 from rfl]
    unfold numeral digitText
    norm_num
  omega

end Aimv6.Libc
