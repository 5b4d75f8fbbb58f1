import Aimv6.Libc.SnprintfNumerals

/-! # The width of a field

The width is both the length of the field and the index into the digits, so that
a field holds as many characters as its width says and no more. It is zeros that
stand in front of the digits, whatever the flags say.
-/

namespace Aimv6.Libc

open Support

variable {T : Target} {m : State T} {text : Long T → List UInt8} {w zeros : Nat}

/-- The conversions that print digits. -/
inductive Numeric where
  | signed
  | unsigned (c : Conversion)
deriving DecidableEq, Repr

def Numeric.char : Numeric → UInt8
  | .signed => 'd'.toUInt8
  | .unsigned c => c.char

def Numeric.sign : Numeric → Long T → List UInt8
  | .signed, a => minus a.toInt
  | .unsigned _, _ => []

def Numeric.digits : Numeric → Long T → List UInt8
  | .signed, a => numeral 10 a.toInt.natAbs
  | .unsigned c, a => numeral c.base a.toNat

/-- A directive with a number of `0` flags and a width. -/
def directive (zeros w : Nat) (c : Numeric) : List UInt8 :=
  '%'.toUInt8 :: (List.replicate zeros 48 ++ (numeral 10 w ++ [c.char]))

/-- The field for a sign and digits: whole, and padded on the left to at least the width, with zeros
or with blanks. -/
structure Padded (zero : Prop) (w : Nat) (sign ds field : List UInt8) : Prop where
  long : w ≤ field.length
  zeros : zero → ∃ k, field = sign ++ (List.replicate k 48 ++ ds)
  blanks : ¬zero → ∃ k, field = List.replicate k 32 ++ (sign ++ ds)

/-! ## Flags and width -/

theorem zeroFlags_emits {fmt : List UInt8} {ap : Nat → Long T} {width : Long T}
    (h : AtSwitch m (List.replicate zeros 48 ++ fmt) ap width) :
    ∃ m', Emits (State.step text) m [] m' ∧ AtSwitch m' fmt ap width := by
  induction zeros generalizing m with
  | zero => exact ⟨m, Emits.refl m, h⟩
  | succ n ih =>
      have hfmt : m.fmt = 48 :: (List.replicate n 48 ++ fmt) := h.fmt
      have hstep : State.step text m =
          .silent { m.skip .fmtLoop with flag := m.flag ||| FLAG_ZEROPAD } := by
        unfold State.step
        rw [h.control]
        dsimp only
        unfold State.fmtSwitch
        rw [hfmt]
        rfl
      rw [skip_cons hfmt] at hstep
      have hpositive : (m.flag ||| FLAG_ZEROPAD) &&& FLAG_NEG = 0 := by
        rw [BitVec.and_or_distrib_right, h.positive]
        decide
      obtain ⟨m', hrun, hat⟩ := @ih { m with
        control := .fmtLoop, fmt := List.replicate n 48 ++ fmt, flag := m.flag ||| FLAG_ZEROPAD }
        ⟨rfl, rfl, h.ap, h.width, hpositive⟩
      exact ⟨m', Emits.silent hstep hrun, hat⟩

theorem digitText_emits {fmt : List UInt8} {n : Nat} (hc : m.control = .widthLoop)
    (hfmt : m.fmt = digitText 10 n ++ fmt) (hwidth : m.width = 0) :
    Emits (State.step text) m [] { m with fmt := fmt, width := BitVec.ofNat _ n } := by
  induction n using Nat.strong_induction_on generalizing fmt with
  | _ n ih =>
      by_cases hn : n = 0
      · have hsame : { m with fmt := fmt, width := BitVec.ofNat _ n } = m := by
          rw [hn, show BitVec.ofNat T.longBits 0 = m.width from hwidth.symm,
            show fmt = m.fmt by rw [hfmt, hn, digitText, Nat.digits_zero]; rfl]
        rw [hsame]
        exact Emits.refl m
      · have hpos := Nat.pos_of_ne_zero hn
        rw [digitText_succ (by decide) hpos, List.append_assoc] at hfmt
        have hbefore := ih (n / 10) (Nat.div_lt_self hpos (by decide)) hfmt
        obtain ⟨at₁, hat₁⟩ : ∃ at₁ : State T, at₁ = { m with
          fmt := [digitChar (n % 10)] ++ fmt, width := BitVec.ofNat _ (n / 10) } := ⟨_, rfl⟩
        have hlast : ∀ d < 10, isDigit (digitChar d) = true ∧ (digitChar d).toNat - 48 = d := by decide
        obtain ⟨hdigit, hvalue⟩ := hlast (n % 10) (Nat.mod_lt n (by decide))
        have hwidth' : BitVec.ofNat T.longBits (n / 10) * 10 + BitVec.ofNat _ (n % 10) =
            BitVec.ofNat T.longBits n := by
          rw [show (10 : Long T) = BitVec.ofNat _ 10 from rfl, ← BitVec.ofNat_mul, ← BitVec.ofNat_add,
            Nat.div_add_mod']
        have hstep : State.step text at₁ =
            .silent { m with fmt := fmt, width := BitVec.ofNat _ n } := by
          unfold State.step
          rw [show at₁.control = .widthLoop by rw [hat₁]; exact hc]
          dsimp only
          rw [skip_cons (show at₁.fmt = digitChar (n % 10) :: fmt by rw [hat₁]; rfl),
            show deref at₁.fmt = digitChar (n % 10) by rw [hat₁]; rfl, if_pos hdigit, hvalue,
            show at₁.width = BitVec.ofNat _ (n / 10) by rw [hat₁], hwidth', hat₁, ← hc]
        rw [← hat₁] at hbefore
        exact hbefore.trans (Emits.quiet hstep)

theorem width_emits {ch : UInt8} {fmt : List UInt8} {ap : Nat → Long T} (hw : 1 ≤ w)
    (hch : isDigit ch = false) (h : AtSwitch m (numeral 10 w ++ ch :: fmt) ap 0) :
    ∃ m', Emits (State.step text) m [] m' ∧ AtSwitch m' (ch :: fmt) ap (BitVec.ofNat _ w) := by
  have hnumeral : numeral 10 w = digitText 10 w := if_neg (by omega)
  rw [hnumeral] at h
  have hfirst : Label.of (deref m.fmt) = .nonzero := by
    rw [h.fmt, ← hnumeral]
    obtain ⟨d, ds, hds⟩ := List.exists_cons_of_ne_nil (numeral_ne_nil (b := 10) (by decide) w)
    have hmem : d ∈ digitText 10 w := by
      rw [← hnumeral, hds]
      exact List.mem_cons_self
    obtain ⟨e, he, rfl⟩ := List.mem_map.1 (List.mem_reverse.1 hmem)
    have hlt : e < 10 := Nat.digits_lt_base (by decide) he
    have hnonzero : e ≠ 0 := by
      rintro rfl
      have hsingle := numeral_noLeadingZero (b := 10) (by decide) (by decide) w (by rw [hds]; rfl)
      have hread := readNat_numeral (b := 10) (by decide) (by decide) w
      have hzero : readNat 10 [48] = some 0 := by decide
      rw [hsingle, hzero] at hread
      exact absurd (Option.some.inj hread) (by omega)
    rw [hds]
    have hall : ∀ e < 10, e ≠ 0 → Label.of (digitChar e) = .nonzero := by decide
    exact hall e hlt hnonzero
  have henter : State.step text m = .silent { m with control := .widthLoop } := by
    unfold State.step
    rw [h.control]
    dsimp only
    unfold State.fmtSwitch
    rw [hfirst]
  have hread : Emits (State.step text) { m with control := .widthLoop } [] _ :=
    digitText_emits rfl h.fmt h.width
  have hleave : State.step text { m with
      control := .widthLoop, fmt := ch :: fmt, width := BitVec.ofNat T.longBits w } =
      .silent { m with control := .fmtLoop, fmt := ch :: fmt, width := BitVec.ofNat T.longBits w } := by
    unfold State.step
    dsimp only
    exact if_neg (by rw [show deref (ch :: fmt) = ch from rfl, hch]; simp)
  refine ⟨_, (Emits.silent henter hread).trans (Emits.quiet hleave), ?_⟩
  exact ⟨rfl, rfl, h.ap, rfl, h.positive⟩

theorem numeric_emits (c : Numeric) {fmt : List UInt8} {ap : Nat → Long T} {width : Long T}
    (h : AtSwitch m (c.char :: fmt) ap width) :
    ∃ m', Emits (State.step text) m (fieldText width (c.sign (ap 0)) (c.digits (ap 0))) m' ∧
      AtMain m' fmt (rest ap) := by
  cases c with
  | signed => exact signed_emits h
  | unsigned c => exact unsigned_emits c h

theorem directive_prints (c : Numeric) (a : Long T) (zeros : Nat) (hw : 1 ≤ w) :
    Prints T (directive zeros w c) a
      (fieldText (T := T) (BitVec.ofNat _ w) (c.sign a) (c.digits a)) := by
  apply prints_of_emits
  intro text ap hap
  have hdigit : isDigit c.char = false := by
    cases c with
    | signed => decide
    | unsigned c => cases c <;> decide
  obtain ⟨m₁, hpercent, hswitch⟩ : ∃ m', Emits (State.step text) (State.start _ ap) [] m' ∧ _ :=
    (start_atMain (directive zeros w c) ap).percent
  obtain ⟨m₂, hflags, hswitch⟩ : ∃ m', Emits (State.step text) m₁ [] m' ∧ _ := zeroFlags_emits hswitch
  obtain ⟨m₃, hwidth, hswitch⟩ : ∃ m', Emits (State.step text) m₂ [] m' ∧ _ :=
    width_emits hw hdigit hswitch
  obtain ⟨m, hrun, hmain⟩ : ∃ m', Emits (State.step text) m₃ _ m' ∧ _ := numeric_emits c hswitch
  rw [hap] at hrun
  exact ⟨m, ((hpercent.trans hflags).trans hwidth).trans hrun, hmain.stops⟩

theorem directive_plain (c : Numeric) (a : Long T) :
    Prints T ['%'.toUInt8, c.char] a (c.sign a ++ c.digits a) := by
  cases c with
  | signed =>
      show Prints T _ a (minus a.toInt ++ numeral 10 a.toInt.natAbs)
      rw [← signedNumeral_eq]
      exact prints_signed a
  | unsigned c => exact prints_unsigned c a

/-! ## Whole fields -/

section
variable {sign ds : List UInt8}

theorem lastDigits_length (w : Nat) (ds : List UInt8) : (lastDigits w ds).length = w := by
  unfold lastDigits
  rw [List.length_append, List.length_replicate, List.length_drop]
  omega

theorem lastDigits_of_le (h : ds.length ≤ w) :
    lastDigits w ds = List.replicate (w - ds.length) 48 ++ ds := by
  unfold lastDigits
  rw [Nat.sub_eq_zero_of_le h, List.drop_zero]

theorem toNat_width (hw : 2 * w < 2 ^ T.longBits) : (BitVec.ofNat T.longBits w).toNat = w := by
  rw [BitVec.toNat_ofNat]
  exact Nat.mod_eq_of_lt (by omega)

theorem fieldText_small (hw : 1 ≤ w) (hsmall : 2 * w < 2 ^ T.longBits) :
    fieldText (BitVec.ofNat T.longBits w) sign ds = sign ++ lastDigits w ds := by
  have hnat := toNat_width hsmall
  have hne : BitVec.ofNat T.longBits w ≠ 0 := by
    intro h
    rw [h] at hnat
    exact absurd hnat.symm (by simpa using Nat.ne_of_gt hw)
  have hint : (BitVec.ofNat T.longBits w).toInt = w := by
    rw [toInt_of_small (v := BitVec.ofNat T.longBits w) (by rw [hnat]; exact hsmall), hnat]
  have hpos : (0 : Long T).slt (BitVec.ofNat T.longBits w) = true := by
    rw [BitVec.slt_iff_toInt_lt, hint, show (0 : Long T).toInt = 0 from BitVec.toInt_zero]
    omega
  unfold fieldText
  rw [if_neg hne, if_pos hpos, hnat]

theorem fieldText_large (hlarge : 2 ^ T.longBits ≤ 2 * w) (hsign : sign.length ≤ 1)
    (hds : ds.length ≤ 22) : (fieldText (BitVec.ofNat T.longBits w) sign ds).length < w := by
  have hbits : 2 ^ 32 ≤ 2 ^ T.longBits := Nat.pow_le_pow_right (by decide) (by cases T <;> decide)
  unfold fieldText
  split
  case isTrue =>
    rw [List.length_append]
    omega
  case isFalse =>
    split
    case isTrue hpos =>
      rw [List.length_append, lastDigits_length]
      have hmod : (BitVec.ofNat T.longBits w).toNat = w % 2 ^ T.longBits := BitVec.toNat_ofNat _ _
      have hdiv := Nat.div_add_mod w (2 ^ T.longBits)
      rw [BitVec.slt_iff_toInt_lt, show (0 : Long T).toInt = 0 from BitVec.toInt_zero,
        BitVec.toInt_eq_toNat_cond] at hpos
      have hhalf : 2 * (BitVec.ofNat T.longBits w).toNat < 2 ^ T.longBits := by
        split at hpos <;> omega
      by_cases hzero : w / 2 ^ T.longBits = 0
      · rw [hzero, Nat.mul_zero, Nat.zero_add] at hdiv
        omega
      · have hle : 2 ^ T.longBits ≤ 2 ^ T.longBits * (w / 2 ^ T.longBits) :=
          Nat.le_mul_of_pos_right _ (Nat.pos_of_ne_zero hzero)
        omega
    case isFalse =>
      rw [List.length_nil]
      omega

/-- The field is right exactly where it is long enough for the digits, and has no room for blanks. -/
theorem padded_iff (zero : Prop) (hw : 1 ≤ w) (hsign : sign = [] ∨ sign = [45])
    (hds : ds.length ≤ 22) : Padded zero w sign ds (fieldText (BitVec.ofNat T.longBits w) sign ds) ↔
      ds.length ≤ w ∧ (¬zero → ds.length = w) ∧ 2 * w < 2 ^ T.longBits := by
  have hlen : sign.length ≤ 1 := by
    rcases hsign with rfl | rfl
    · exact Nat.zero_le 1
    · exact Nat.le_refl 1
  by_cases hsmall : 2 * w < 2 ^ T.longBits
  · rw [fieldText_small hw hsmall]
    constructor
    · intro h
      by_cases hzero : zero
      · obtain ⟨k, hk⟩ := h.zeros hzero
        have hcount := congrArg List.length (List.append_cancel_left hk)
        rw [lastDigits_length, List.length_append, List.length_replicate] at hcount
        exact ⟨by omega, fun hnot => absurd hzero hnot, hsmall⟩
      · obtain ⟨k, hk⟩ := h.blanks hzero
        have hcount := congrArg List.length hk
        rw [List.length_append, lastDigits_length, List.length_append, List.length_replicate,
          List.length_append] at hcount
        have hnone : k = 0 := by
          by_contra hne
          obtain ⟨j, rfl⟩ := Nat.exists_eq_succ_of_ne_zero hne
          -- the first character is a sign or a zero
          rw [List.replicate_succ, List.cons_append] at hk
          rcases hsign with rfl | rfl
          · rw [List.nil_append, lastDigits_of_le (by simp at hcount; omega)] at hk
            obtain ⟨i, hi⟩ : ∃ i, w - ds.length = i + 1 := ⟨w - ds.length - 1, by simp at hcount; omega⟩
            rw [hi, List.replicate_succ, List.cons_append] at hk
            exact absurd (List.cons.inj hk).1 (by decide)
          · exact absurd (List.cons.inj hk).1 (by decide)
        exact ⟨by omega, fun _ => by omega, hsmall⟩
    · rintro ⟨hle, hexact, -⟩
      rw [lastDigits_of_le hle]
      constructor
      case long =>
        rw [List.length_append, List.length_append, List.length_replicate]
        omega
      case zeros => exact fun _ => ⟨w - ds.length, rfl⟩
      case blanks =>
        intro hzero
        refine ⟨0, ?_⟩
        rw [hexact hzero, Nat.sub_self]
        rfl
  · constructor
    · intro h
      have hshort : (fieldText (BitVec.ofNat T.longBits w) sign ds).length < w :=
        fieldText_large (Nat.not_lt.1 hsmall) hlen hds
      exact absurd h.long (Nat.not_le.2 hshort)
    · exact fun h => absurd h.2.2 hsmall

theorem Holds.unique {str : Nat → UInt8} {a b : List UInt8} (ha : Holds str a) (hb : Holds str b)
    (ha' : 0 ∉ a) (hb' : 0 ∉ b) : a = b := by
  have hle : ∀ {a b : List UInt8}, Holds str a → Holds str b → 0 ∉ b → b.length ≤ a.length := by
    intro a b ha hb hb'
    by_contra hlt
    have hend := hb.1 a.length (by omega)
    rw [ha.2] at hend
    exact hb' (hend ▸ List.getElem_mem _)
  apply List.ext_getElem (Nat.le_antisymm (hle hb ha ha') (hle ha hb hb'))
  intro i hi hi'
  exact (ha.1 i hi).symm.trans (hb.1 i hi')

theorem Prints.unique {fmt a b : List UInt8} {v : Long T} (ha : Prints T fmt v a)
    (hb : Prints T fmt v b) (ha' : 0 ∉ a) (hb' : 0 ∉ b) : a = b := by
  have hsize : a.length < a.length + b.length + 1 ∧ b.length < a.length + b.length + 1 := by omega
  obtain ⟨fuel, r, str, hrun, hholds⟩ := ha (fun _ => []) (fun _ => v) _ (fun _ => 0) rfl hsize.1
  obtain ⟨fuel', r', str', hrun', hholds'⟩ := hb (fun _ => []) (fun _ => v) _ (fun _ => 0) rfl hsize.2
  obtain ⟨-, hstr⟩ := Prod.mk.inj (vsnprintf_unique hrun hrun')
  rw [hstr] at hholds
  exact hholds.unique hholds' ha' hb'

theorem Padded.no_nul {zero : Prop} {field : List UInt8} (h : Padded zero w sign ds field)
    (hsign : 0 ∉ sign) (hds : 0 ∉ ds) : 0 ∉ field := by
  intro hmem
  by_cases hzero : zero
  · obtain ⟨k, rfl⟩ := h.zeros hzero
    rcases List.mem_append.1 hmem with hmem | hmem
    · exact hsign hmem
    · rcases List.mem_append.1 hmem with hmem | hmem
      · exact absurd (List.eq_of_mem_replicate hmem) (by decide)
      · exact hds hmem
  · obtain ⟨k, rfl⟩ := h.blanks hzero
    rcases List.mem_append.1 hmem with hmem | hmem
    · exact absurd (List.eq_of_mem_replicate hmem) (by decide)
    · rcases List.mem_append.1 hmem with hmem | hmem
      · exact hsign hmem
      · exact hds hmem

theorem fieldText_no_nul {width : Long T} (hsign : 0 ∉ sign) (hds : 0 ∉ ds) :
    0 ∉ fieldText width sign ds := by
  unfold fieldText lastDigits
  intro hmem
  split at hmem
  · exact (List.mem_append.1 hmem).elim hsign hds
  · split at hmem
    · rcases List.mem_append.1 hmem with hmem | hmem
      · exact hsign hmem
      · rcases List.mem_append.1 hmem with hmem | hmem
        · exact absurd (List.eq_of_mem_replicate hmem) (by decide)
        · exact hds (List.mem_of_mem_drop hmem)
    · exact absurd hmem List.not_mem_nil

end

theorem minus_cases (i : Int) : minus i = [] ∨ minus i = [45] := by
  unfold minus
  split
  · exact Or.inr rfl
  · exact Or.inl rfl

theorem Numeric.sign_cases (c : Numeric) (a : Long T) : c.sign a = [] ∨ c.sign a = [45] := by
  cases c with
  | signed => exact minus_cases a.toInt
  | unsigned c => exact Or.inl rfl

theorem numeral_length {b n : Nat} (hb : 8 ≤ b) (hn : n < 18446744073709551616) :
    (numeral b n).length ≤ 22 := by
  unfold numeral digitText
  split
  · exact Nat.le_of_ble_eq_true rfl
  · rw [List.length_reverse, List.length_map]
    apply (Nat.digits_length_le_iff (by omega) n).2
    calc n < 8 ^ 22 := by omega
      _ ≤ b ^ 22 := Nat.pow_le_pow_left hb 22

theorem Numeric.digits_length (c : Numeric) (a : Long T) : (c.digits a).length ≤ 22 := by
  have htop := toNat_lt_top a
  cases c with
  | signed =>
      apply numeral_length (by decide)
      rw [BitVec.toInt_eq_toNat_cond]
      have hlt := a.isLt
      split <;> omega
  | unsigned c => exact numeral_length c.base_bounds.1 htop

theorem Numeric.digits_no_nul (c : Numeric) (a : Long T) : 0 ∉ c.digits a := by
  intro hmem
  cases c with
  | signed => exact (mem_numeral (b := 10) (by decide) (by decide) hmem).2 rfl
  | unsigned c =>
      have hbase := c.base_bounds
      exact (mem_numeral (by omega) hbase.2 hmem).2 rfl

theorem Numeric.sign_no_nul (c : Numeric) (a : Long T) : 0 ∉ c.sign a := by
  rcases c.sign_cases a with h | h
  · rw [h]
    decide
  · rw [h]
    decide

/-- A field with a width holds all that is printed without one, and the padding that the flags ask
for, exactly where the digits fit into the width, where they fill it unless the flag is given, and
where the width is a `long`. -/
theorem field_whole_iff (c : Numeric) (a : Long T) (zeros : Nat) (hw : 1 ≤ w) :
    Prints T ['%'.toUInt8, c.char] a (c.sign a ++ c.digits a) ∧
    ((∃ field, Prints T (directive zeros w c) a field ∧
        Padded (0 < zeros) w (c.sign a) (c.digits a) field) ↔
      (c.digits a).length ≤ w ∧ (zeros = 0 → (c.digits a).length = w) ∧ 2 * w < 2 ^ T.longBits) := by
  have hiff := padded_iff (T := T) (0 < zeros) hw (c.sign_cases a) (c.digits_length a)
  have hflag : ¬0 < zeros ↔ zeros = 0 := by omega
  rw [hflag] at hiff
  refine ⟨directive_plain c a, ?_⟩
  rw [← hiff]
  constructor
  · rintro ⟨field, hprints, hpadded⟩
    have hsame := hprints.unique (directive_prints c a zeros hw)
      (hpadded.no_nul (c.sign_no_nul a) (c.digits_no_nul a))
      (fieldText_no_nul (c.sign_no_nul a) (c.digits_no_nul a))
    rw [hsame] at hpadded
    exact hpadded
  · exact fun hpadded => ⟨_, directive_prints c a zeros hw, hpadded⟩

/-- `"%05d"` and `-42`. -/
theorem field_whole_iff_sample :
    Prints .armv7a ['%'.toUInt8, 'd'.toUInt8] (-42) (Numeric.signed.sign (-42 : Long .armv7a) ++
      Numeric.signed.digits (-42 : Long .armv7a)) ∧
    ((∃ field, Prints .armv7a (directive 1 5 .signed) (-42) field ∧
        Padded (0 < 1) 5 (Numeric.signed.sign (-42 : Long .armv7a))
          (Numeric.signed.digits (-42 : Long .armv7a)) field) ↔
      (Numeric.signed.digits (-42 : Long .armv7a)).length ≤ 5 ∧
        (1 = 0 → (Numeric.signed.digits (-42 : Long .armv7a)).length = 5) ∧
        2 * 5 < 2 ^ Target.armv7a.longBits) :=
  field_whole_iff .signed (-42 : Long .armv7a) 1 (by decide)

/-- `"%2d"` prints `23` of `123`. -/
theorem field_loses_digits : ¬∀ (T : Target) (c : Numeric) (a : Long T) (zeros w : Nat), 1 ≤ w →
    ∃ field, Prints T (directive zeros w c) a field ∧
      Padded (0 < zeros) w (c.sign a) (c.digits a) field := by
  intro h
  obtain ⟨field, hprints, hpadded⟩ := h .armv7a .signed 123 0 2 (by decide)
  have hfield := hprints.unique (directive_prints .signed (123 : Long .armv7a) 0 (by decide))
    (hpadded.no_nul (Numeric.sign_no_nul .signed _) (Numeric.digits_no_nul .signed _))
    (fieldText_no_nul (Numeric.sign_no_nul .signed _) (Numeric.digits_no_nul .signed _))
  rw [hfield] at hpadded
  have hshort := (padded_iff (T := .armv7a) _ (by decide) (Numeric.sign_cases .signed _)
    (Numeric.digits_length .signed _)).1 hpadded
  have hthree : (Numeric.signed.digits (123 : Long .armv7a)).length = 3 := by
    have hint : (123 : Long .armv7a).toInt.natAbs = 123 := by decide
    show (numeral 10 (123 : Long .armv7a).toInt.natAbs).length = 3
    rw [hint]
    unfold numeral digitText
    norm_num
  omega

end Aimv6.Libc
